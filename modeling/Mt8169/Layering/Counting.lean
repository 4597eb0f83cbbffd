import Mt8169.Layering.Ranges

/-!
# Counting the layers that need an overlay

The layers of a display that are not extended need an overlay, those inside of the GLES range only
one together. `get_phy_ovl_layer_cnt` counts them if extended layers are an option. Without the
option it counts the extended ones outside of the range as well.
-/

namespace Mt8169.Layering

open MachineInt WeakestPre DispInfo List Bool

/-- The number of layers below an index that are not extended ones. -/
def physBelow (ext : List Bool) (i : ℤ) : ℤ := ((ext.take i.toNat).count false : ℕ)

/-- The number of layers from an index on that are not extended ones. -/
def physFrom (ext : List Bool) (i : ℤ) : ℤ := ((ext.drop i.toNat).count false : ℕ)

section Counting

variable {ext : List Bool} {i j : ℤ}

theorem physBelow_nonneg (ext : List Bool) (i : ℤ) : 0 ≤ physBelow ext i := by
  unfold physBelow
  omega

theorem physFrom_nonneg (ext : List Bool) (i : ℤ) : 0 ≤ physFrom ext i := by
  unfold physFrom
  omega

@[simp]
theorem physBelow_zero : physBelow ext 0 = 0 := rfl

theorem physBelow_mono (ext : List Bool) (hle : i ≤ j) : physBelow ext i ≤ physBelow ext j := by
  unfold physBelow
  have hsub := (take_sublist_take_left (l := ext)
    (show i.toNat ≤ j.toNat by omega)).count_le false
  omega

theorem physFrom_anti (ext : List Bool) (hle : i ≤ j) : physFrom ext j ≤ physFrom ext i := by
  unfold physFrom
  have hsub := (drop_sublist_drop_left ext
    (show i.toNat ≤ j.toNat by omega)).count_le false
  omega

theorem physBelow_le : physBelow ext i ≤ physFrom ext 0 := by
  unfold physBelow physFrom
  have hsub := (take_sublist i.toNat ext).count_le false
  rw [Int.toNat_zero, drop_zero]
  omega

theorem physBelow_length (hle : (ext.length : ℤ) ≤ i) : physBelow ext i = physFrom ext 0 := by
  unfold physBelow physFrom
  rw [take_of_length_le (by omega), Int.toNat_zero, drop_zero]

theorem physFrom_length (hle : (ext.length : ℤ) ≤ i) : physFrom ext i = 0 := by
  unfold physFrom
  rw [drop_eq_nil_of_le (by omega)]
  rfl

theorem physBelow_succ (hlo : 0 ≤ i) {b : Bool} (hb : ext[i.toNat]? = some b) :
    physBelow ext (i + 1) = physBelow ext i + if b then 0 else 1 := by
  unfold physBelow
  have hsucc : (i + 1).toNat = i.toNat + 1 := by omega
  rw [hsucc, take_add_one, hb, count_append]
  cases b <;> simp

theorem physFrom_eq (hlo : 0 ≤ i) {b : Bool} (hb : ext[i.toNat]? = some b) :
    physFrom ext i = physFrom ext (i + 1) + if b then 0 else 1 := by
  unfold physFrom
  have hsucc : (i + 1).toNat = i.toNat + 1 := by omega
  obtain ⟨hlt, hget⟩ := List.getElem?_eq_some_iff.mp hb
  rw [hsucc, drop_eq_getElem_cons hlt, hget]
  cases b <;> simp

end Counting

/-- What the rollback of a display depends on: its GLES range, and which of its layers are extended
ones. -/
structure Display where
  head : ℤ
  tail : ℤ
  ext : List Bool

/-- A display of a state. -/
def DispInfo.display (s : DispInfo) (d : HrtDisp) : Display :=
  ⟨s.glesHead d, s.glesTail d, (s.inputConfig d).map LayerConfig.isExtended⟩

theorem DispInfo.display_ext {s : DispInfo} {d : HrtDisp} {i : ℤ} {c : LayerConfig}
    (h : s.layer? d i = some c) : ((s.display d).ext)[i.toNat]? = some c.isExtended := by
  obtain ⟨hlo, -⟩ := of_layer? h
  unfold layer? at h
  rw [if_pos hlo] at h
  unfold display
  dsimp only
  rw [getElem?_map, h]
  rfl

@[simp]
theorem DispInfo.length_display_ext (s : DispInfo) (d : HrtDisp) :
    ((s.display d).ext).length = (s.inputConfig d).length := by
  unfold display
  dsimp only
  rw [length_map]

theorem DispInfo.length_ext (s : DispInfo) (d : HrtDisp) :
    ((s.display d).ext.length : ℤ) = s.layerNum d := by
  rw [length_display_ext]
  rfl

/-- The layers below the GLES range that need an overlay, or all of them without a range. -/
def Display.below (x : Display) : ℤ :=
  if 0 ≤ x.head then physBelow x.ext x.head else physFrom x.ext 0

/-- The layers above the GLES range that need an overlay. -/
def Display.above (x : Display) : ℤ := physFrom x.ext (x.tail + 1)

section CountFrom

variable {α β : Type} {p q : ℤ → α → Bool} {i lo hi : ℤ} {l l' : List α} {bs : List Bool}

theorem countFrom_map {p : ℤ → β → Bool} (f : α → β) :
    countFrom p i (l.map f) = countFrom (fun i a => p i (f a)) i l := by
  induction l generalizing i with
  | nil => rfl
  | cons a l ih =>
    rw [map_cons, countFrom, countFrom, ih]

theorem countFrom_append :
    countFrom p i (l ++ l') = countFrom p i l + countFrom p (i + l.length) l' := by
  induction l generalizing i with
  | nil => simp [countFrom]
  | cons a l ih =>
    have hlen : i + ((a :: l).length : ℤ) = i + 1 + l.length := by
      rw [length_cons]
      omega
    rw [cons_append, countFrom, countFrom, ih, hlen]
    omega

theorem countFrom_eq {q : ℤ → β → Bool} {l' : List β} (hlen : l.length = l'.length)
    (h : ∀ (k : ℕ) a b, l[k]? = some a → l'[k]? = some b → p (i + k) a = q (i + k) b) :
    countFrom p i l = countFrom q i l' := by
  induction l generalizing i l' with
  | nil =>
    cases l' with
    | nil => rfl
    | cons b l' => cases hlen
  | cons a l ih =>
    cases l' with
    | nil => cases hlen
    | cons b l' =>
      have hfirst : p i a = q i b := by
        have hzero := h 0 a b rfl rfl
        rwa [Int.natCast_zero, Int.add_zero] at hzero
      rw [countFrom, countFrom, hfirst, ih (Nat.succ.inj hlen)]
      intro k a' b' ha hb
      have hsucc := h (k + 1) a' b' ha hb
      have hidx : i + ((k + 1 : ℕ) : ℤ) = i + 1 + k := by omega
      rwa [hidx] at hsucc

theorem countFrom_congr (h : ∀ (k : ℕ) a, l[k]? = some a → p (i + k) a = q (i + k) a) :
    countFrom p i l = countFrom q i l := by
  apply countFrom_eq rfl
  intro k a b ha hb
  obtain rfl := Option.some.inj (ha.symm.trans hb)
  exact h k a ha

theorem countFrom_false : countFrom (fun _ (_ : α) => false) i l = 0 := by
  induction l generalizing i with
  | nil => rfl
  | cons a l ih =>
    rw [countFrom, ih]
    rfl

theorem countFrom_self (l : List Bool) :
    countFrom (fun _ b => b) i l = (l.length : ℤ) - (l.count false : ℕ) := by
  induction l generalizing i with
  | nil => rfl
  | cons b l ih =>
    rw [countFrom, ih]
    cases b
    · simp only [length_cons, count_cons_self, false_eq_true, if_false]
      omega
    · simp only [length_cons, count_cons_of_ne, ne_eq, true_eq_false,
        not_false_eq_true, if_true]
      omega

theorem countFrom_outside (h : ∀ k < bs.length, ¬(lo ≤ i + k ∧ i + k ≤ hi)) :
    countFrom (fun i b => b && !decide (lo ≤ i ∧ i ≤ hi)) i bs =
      bs.length - (bs.count false : ℕ) := by
  rw [← countFrom_self (i := i)]
  apply countFrom_congr
  intro k b hk
  obtain ⟨hlt, -⟩ := List.getElem?_eq_some_iff.mp hk
  rw [decide_eq_false (h k hlt), Bool.not_false, Bool.and_true]

theorem countFrom_inside (h : ∀ k < bs.length, lo ≤ i + k ∧ i + k ≤ hi) :
    countFrom (fun i b => b && !decide (lo ≤ i ∧ i ≤ hi)) i bs = 0 := by
  rw [← countFrom_false (i := i) (l := bs)]
  apply countFrom_congr
  intro k b hk
  obtain ⟨hlt, -⟩ := List.getElem?_eq_some_iff.mp hk
  rw [decide_eq_true (h k hlt), Bool.not_true, Bool.and_false]

end CountFrom

/-- The extended layers outside of the GLES range. -/
def Display.extOutside (x : Display) : ℤ :=
  countFrom (fun i b => b && !decide (x.head ≤ i ∧ i ≤ x.tail)) 0 x.ext

/-- The GLES range of a display is empty or inside of its layers. -/
def Display.RangeOk (x : Display) : Prop :=
  (x.head = -1 ∧ x.tail = -1) ∨ (0 ≤ x.head ∧ x.head ≤ x.tail ∧ x.tail < x.ext.length)

/-- The overlays that a display needs. -/
def Display.overlays (x : Display) : ℤ :=
  if 0 ≤ x.head then x.below + 1 + x.above else x.below

theorem Display.extOutside_eq {x : Display} (hrange : x.RangeOk) :
    x.extOutside =
      x.ext.length - (if 0 ≤ x.head then x.tail - x.head else 0) - x.overlays := by
  unfold extOutside overlays below above
  rcases hrange with ⟨hhead, htail⟩ | ⟨hhead, hle, htail⟩
  · rw [countFrom_outside (by omega), if_neg (by omega), if_neg (by omega), if_neg (by omega)]
    unfold physFrom
    rw [Int.toNat_zero, drop_zero]
    omega
  · -- the layers below, inside of and above the range
    obtain ⟨h, hh⟩ : ∃ h : ℕ, x.head = h := ⟨x.head.toNat, by omega⟩
    obtain ⟨m, hm⟩ : ∃ m : ℕ, x.tail + 1 = x.head + m := ⟨(x.tail + 1 - x.head).toNat, by omega⟩
    have hsplit : x.ext = x.ext.take h ++ ((x.ext.drop h).take m ++ x.ext.drop (h + m)) := by
      rw [← drop_drop, take_append_drop, take_append_drop]
    have hbelow : (x.ext.take h).length = h := by
      rw [length_take]
      omega
    have hmid : ((x.ext.drop h).take m).length = m := by
      rw [length_take, length_drop]
      omega
    conv_lhs => rw [hsplit]
    rw [countFrom_append, countFrom_append, hbelow, hmid, countFrom_outside (by omega),
      countFrom_inside (by omega), countFrom_outside (by omega), hbelow, length_drop,
      if_pos hhead, if_pos hhead, if_pos hhead]
    have htail' : (x.tail + 1).toNat = h + m := by omega
    have hhead' : x.head.toNat = h := by omega
    unfold physBelow physFrom
    rw [htail', hhead']
    omega

/-- `get_phy_ovl_layer_cnt`. -/
theorem DispInfo.getPhyOvlLayerCnt_eq (env : LayeringEnv) {s : DispInfo} {d : HrtDisp}
    (hrange : (s.display d).RangeOk) :
    s.getPhyOvlLayerCnt env d = (s.display d).overlays +
      if env.optExtLayer then 0 else (s.display d).extOutside := by
  have heq := Display.extOutside_eq hrange
  have hcount : countFrom (fun i c => c.isExtended && !s.isGlesLayer d i) 0 (s.inputConfig d) =
      (s.display d).extOutside := by
    unfold Display.extOutside display
    rw [countFrom_map]
    rfl
  have hlen := s.length_ext d
  have hhead : (s.display d).head = s.glesHead d := rfl
  have htail : (s.display d).tail = s.glesTail d := rfl
  unfold getPhyOvlLayerCnt
  rw [hcount]
  rw [hlen, hhead, htail] at heq
  by_cases hpos : s.layerNum d > 0
  · rw [if_pos hpos]
    cases env.optExtLayer
    · simp only [false_eq_true, if_false]
      omega
    · simp only [if_true]
      omega
  · -- a display without layers needs no overlay
    have hnone : ¬0 ≤ s.glesHead d := by
      rcases hrange with hnone | hsome <;> omega
    have hzero : (s.display d).overlays = 0 := by
      unfold Display.overlays Display.below
      rw [hhead, if_neg hnone, if_neg hnone]
      apply physFrom_length
      omega
    rw [if_neg hpos, hzero]
    rw [if_neg hnone, hzero] at heq
    split
    · rfl
    · omega

end Mt8169.Layering
