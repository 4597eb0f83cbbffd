import Mt8169.Layering.Budget

/-!
# The layers of the other displays

`filter_2nd_display` counts the layers outside of the GLES range of the secondary and the third
display and rolls back those beyond the limit of a display. The counter is set to zero only once, so
the layers of the secondary display count for the third one as well.
-/

namespace Mt8169.Layering

open WeakestPre DispInfo List

/-- A GLES range that is extended to a layer. -/
def growRange (g : ℤ × ℤ) (i : ℤ) : ℤ × ℤ :=
  (if g.1 = -1 ∨ g.1 > i then i else g.1,
    if g.2 = -1 ∨ g.2 < i then i else g.2)

/-- The layers below `n` that the loop finds outside of the GLES range, which grows as it rolls back
all of them but the first `keep`. -/
def foundBelow (g : ℤ × ℤ) (keep : ℕ) : ℕ → List ℤ
  | 0 => []
  | n + 1 =>
    let found := foundBelow g keep n
    let grown := (found.drop keep).foldl growRange g
    if grown.1 ≤ n ∧ n ≤ grown.2 then found else found ++ [(n : ℤ)]

/-- The layers below `n` that are outside of the GLES range at first. -/
def outsideBelow (g : ℤ × ℤ) (n : ℕ) : List ℤ :=
  ((range n).map Int.ofNat).filter fun i => ¬(g.1 ≤ i ∧ i ≤ g.2)

variable {g : ℤ × ℤ} {keep : ℕ}

theorem outsideBelow_succ (g : ℤ × ℤ) (n : ℕ) :
    outsideBelow g (n + 1) =
      outsideBelow g n ++ if g.1 ≤ n ∧ n ≤ g.2 then [] else [(n : ℤ)] := by
  rw [outsideBelow, range_succ, map_append, filter_append]
  congr 1
  by_cases hin : g.1 ≤ n ∧ n ≤ g.2
  · simp [hin]
  · rw [if_neg hin]
    exact filter_cons_of_pos (decide_eq_true hin)

theorem foundBelow_eq {n : ℕ} (h : (foundBelow g keep n).length ≤ keep ∨
    (outsideBelow g n).length ≤ keep) : foundBelow g keep n = outsideBelow g n := by
  induction n with
  | zero => rfl
  | succ n ih =>
    have hfound : (foundBelow g keep n).length ≤ (foundBelow g keep (n + 1)).length := by
      rw [foundBelow]
      split <;> simp
    rw [outsideBelow_succ, length_append] at h
    have hsame := ih (h.imp (Nat.le_trans hfound) (Nat.le_trans (Nat.le_add_right _ _)))
    have hshort : (foundBelow g keep n).length ≤ keep := by
      rcases h with h | h
      · exact Nat.le_trans hfound h
      · rw [hsame]
        exact Nat.le_trans (Nat.le_add_right _ _) h
    rw [foundBelow, outsideBelow_succ, drop_eq_nil_of_le hshort, foldl_nil, ← hsame]
    split <;> simp

theorem length_foundBelow_le {n k : ℕ} (hk : k ≤ keep) :
    (foundBelow g keep n).length ≤ k ↔ (outsideBelow g n).length ≤ k := by
  constructor <;> intro h
  · rwa [← foundBelow_eq (Or.inl (Nat.le_trans h hk))]
  · rwa [foundBelow_eq (Or.inr (Nat.le_trans h hk))]

variable (s : DispInfo) (d : HrtDisp)

/-- The GLES range of a display. -/
def DispInfo.glesRange : ℤ × ℤ := (s.glesHead d, s.glesTail d)

/-- The state after `mtk_rollback_layer_to_GPU`. -/
def DispInfo.rollback (i : ℤ) : DispInfo := (s.growGles d i).modifyAt d i LayerConfig.clearExt

/-- `max_layer_cnt`. -/
def DispInfo.maxLayerCnt : ℕ := if s.isTripleDisp && decide (d = .secondary) then 1 else 2

/-- The layers of a display that are found outside of the GLES range if the counter starts with
`cnt`. -/
def DispInfo.found (cnt : ℕ) : List ℤ :=
  foundBelow (s.glesRange d) (s.maxLayerCnt d - cnt) (s.inputConfig d).length

/-- The layers of a display that are rolled back then. -/
def DispInfo.rolledBack (cnt : ℕ) : List ℤ := (s.found d cnt).drop (s.maxLayerCnt d - cnt)

/-- The state when these layers have been rolled back. -/
def DispInfo.rollbackAll (is : List ℤ) : DispInfo := is.foldl (fun s i => s.rollback d i) s

theorem DispInfo.maxLayerCnt_third : s.maxLayerCnt .third = 2 := by simp [maxLayerCnt]

variable {s : DispInfo} {d : HrtDisp}

theorem DispInfo.rollbackAll_frame (d : HrtDisp) (is : List ℤ) :
    (∀ d', ((s.rollbackAll d is).inputConfig d').length = (s.inputConfig d').length) ∧
      (s.rollbackAll d is).glesRange d = is.foldl growRange (s.glesRange d) ∧
      ∀ d', d' ≠ d → (s.rollbackAll d is).glesRange d' = s.glesRange d' := by
  induction is generalizing s with
  | nil => exact ⟨fun _ => rfl, rfl, fun _ _ => rfl⟩
  | cons i is ih =>
    obtain ⟨hnum, hrange, hothers⟩ := ih (s := s.rollback d i)
    have hstep : (s.rollback d i).glesRange d = growRange (s.glesRange d) i := by
      simp only [glesRange, rollback, modifyAt, growGles, setGles, growRange, Function.update_self]
      rfl
    refine ⟨fun d' => (hnum d').trans ?_, hrange.trans ?_, fun d' hd => (hothers d' hd).trans ?_⟩
    · exact (s.growGles d i).modifyAt_num d d' i _
    · rw [hstep, foldl_cons]
    · simp [glesRange, rollback, modifyAt, growGles, setGles, Function.update_of_ne hd]

/-- A display keeps its first layers, and the counter goes on. -/
theorem wp_filterDisplay (s : DispInfo) (d : HrtDisp) (cnt : ℕ) :
    wp (filterDisplay d cnt) (fun cnt' s' => cnt' = cnt + (s.found d cnt).length ∧
      s' = s.rollbackAll d (s.rolledBack d cnt)) s := by
  unfold filterDisplay foldLayers
  rw [wp_read, wp_read]
  let keep := s.maxLayerCnt d - cnt
  apply wp_foldUp (fun i cnt' s' => ∃ found, found = foundBelow (s.glesRange d) keep i.toNat ∧
    cnt' = cnt + found.length ∧ s' = s.rollbackAll d (found.drop keep)) (Int.natCast_nonneg _)
  · exact ⟨[], rfl, rfl, by rw [drop_nil]; rfl⟩
  · rintro i _ _ hlo hhi ⟨found, hfound, rfl, rfl⟩
    obtain ⟨n, rfl⟩ := Int.eq_ofNat_of_zero_le hlo
    obtain ⟨hnum, hrange, -⟩ := s.rollbackAll_frame d (found.drop keep)
    have hnext : foundBelow (s.glesRange d) keep (n + 1) =
        if (s.rollbackAll d (found.drop keep)).isGlesLayer d n then found
        else found ++ [(n : ℤ)] := by
      rw [foundBelow, ← Int.toNat_natCast n, ← hfound, ← hrange]
      simp only [isGlesLayer, glesRange, decide_eq_true_eq]
      rfl
    rw [wp_read]
    by_cases hgles : (s.rollbackAll d (found.drop keep)).isGlesLayer d n = true
    · rw [if_pos hgles] at hnext ⊢
      exact wp_continue.mpr ⟨found, hnext.symm, rfl, rfl⟩
    · rw [if_neg hgles] at hnext ⊢
      have hbeyond : cnt + found.length + 1 > s.maxLayerCnt d ↔ keep ≤ found.length := by omega
      have hlen : cnt + found.length + 1 = cnt + (found ++ [(n : ℤ)]).length := by
        rw [length_append, length_singleton, Nat.add_assoc]
      refine (wp_ite _ _ _ _ _).mpr ⟨fun hmore => ?_, fun hmore =>
        wp_continue.mpr ⟨_, hnext.symm, hlen, ?_⟩⟩
      · have hle := hbeyond.mp hmore
        have hvalid : (0 : ℤ) ≤ n ∧ n < (s.rollbackAll d (found.drop keep)).layerNum d := by
          rw [layerNum, hnum]
          exact ⟨hlo, hhi⟩
        rw [mtkRollbackLayerToGPU, wp_bind, wp_read, isLayerIdValid,
          if_pos (decide_eq_true hvalid), wp_bind, wp_modify, wp_modifyLayer]
        refine ⟨hvalid, wp_continue.mpr ⟨_, hnext.symm, hlen, ?_⟩⟩
        rw [drop_append_of_le_length hle]
        unfold rollbackAll
        rw [foldl_append]
        rfl
      · have hlt : found.length < keep := by
          rw [← Nat.not_le]
          exact fun hle => hmore (hbeyond.mpr hle)
        rw [drop_eq_nil_of_le (by omega), drop_eq_nil_of_le (by simp; omega)]
  · rintro _ _ ⟨_, rfl, rfl, rfl⟩
    exact ⟨rfl, rfl⟩

/-- The counter after the secondary display. -/
def DispInfo.layerCnt (s : DispInfo) : ℕ := (s.found .secondary 0).length

/-- The state after both displays. -/
def DispInfo.filtered (s : DispInfo) : DispInfo :=
  (s.rollbackAll .secondary (s.rolledBack .secondary 0)).rollbackAll .third
    (s.rolledBack .third s.layerCnt)

/-- On both displays the layers that are rolled back are those found outside of the GLES range, but
for the first `max_layer_cnt`, and the range left on the third display is the one its own layers
lead to. -/
structure DispInfo.Independent (s : DispInfo) : Prop where
  secondary : s.rolledBack .secondary 0 = (s.found .secondary 0).drop (s.maxLayerCnt .secondary)
  third : s.rolledBack .third s.layerCnt =
    (s.found .third s.layerCnt).drop (s.maxLayerCnt .third)
  range : s.filtered.glesRange .third =
    (s.rollbackAll .third (s.rolledBack .third 0)).glesRange .third

/-- The number of layers of a display outside of its GLES range. -/
def DispInfo.outsideNum (s : DispInfo) (d : HrtDisp) : ℕ :=
  (outsideBelow (s.glesRange d) (s.inputConfig d).length).length

theorem DispInfo.rolledBack_third (s : DispInfo) (cnt : ℕ) :
    s.rolledBack .third cnt = (s.found .third cnt).drop (2 - cnt) := by
  rw [rolledBack, maxLayerCnt_third]

theorem DispInfo.found_third (s : DispInfo) (cnt : ℕ) (is : List ℤ) :
    (s.rollbackAll .secondary is).found .third cnt = s.found .third cnt := by
  obtain ⟨hnum, -, hrange⟩ := s.rollbackAll_frame .secondary is
  rw [found, hrange _ (by decide), hnum, maxLayerCnt_third, found, maxLayerCnt_third]

/-- The filter in terms of the layers rolled back. -/
theorem filter2ndDisplay_eq (s : DispInfo) : filter2ndDisplay s = .ok ((), s.filtered) := by
  obtain ⟨_, s1, hsecondary, rfl, hs1⟩ := wp_iff.mp (wp_filterDisplay s .secondary 0)
  obtain ⟨_, s', hthird, -, rfl⟩ := wp_iff.mp (wp_filterDisplay s1 .third (0 + s.layerCnt))
  rw [filter2ndDisplay, bind, Monad.toBind]
  simp only [StateT.instMonad, StateT.bind, bind, Except.bind, hsecondary]
  rw [show filterDisplay .third (0 + (s.found .secondary 0).length) s1 = _ from hthird,
    Nat.zero_add, rolledBack_third, hs1, s.found_third, filtered, s.rolledBack_third]
  rfl

/-- The displays do not influence each other exactly if the third one is not cut. -/
theorem DispInfo.independent_iff (s : DispInfo) :
    s.Independent ↔ s.layerCnt = 0 ∨ s.outsideNum .third ≤ 2 - s.layerCnt := by
  have hkeep := s.maxLayerCnt_third
  have hthird {cnt : ℕ} : (s.found .third cnt).length ≤ 2 - cnt ↔ s.outsideNum .third ≤ 2 - cnt :=
    length_foundBelow_le (by omega)
  have hleft : s.filtered.glesRange .third =
      (s.rolledBack .third s.layerCnt).foldl growRange (s.glesRange .third) := by
    rw [filtered, (rollbackAll_frame .third _).2.1,
      (rollbackAll_frame .secondary _).2.2 _ (by decide)]
  rw [← hthird]
  constructor
  · intro h
    have hlen := congrArg length h.third
    rw [rolledBack_third, hkeep, length_drop, length_drop] at hlen
    omega
  · rintro (hzero | hle)
    · rw [hzero] at hleft
      exact ⟨rfl, by rw [hzero]; rfl, hleft.trans (s.rollbackAll_frame .third _).2.1.symm⟩
    · have hnone : s.rolledBack .third s.layerCnt = [] := by
        rw [rolledBack_third, drop_eq_nil_of_le hle]
      have hown : s.rolledBack .third 0 = [] := by
        rw [rolledBack_third, drop_eq_nil_iff, hthird]
        have := hthird.mp hle
        omega
      refine ⟨rfl, ?_, ?_⟩
      · rw [hnone, drop_eq_nil_of_le (by omega)]
      · rw [hleft, hnone, hown]
        rfl

/-- `filter_2nd_display` treats the displays independently exactly if one of them has no layer
outside of its GLES range, or both have one. -/
theorem filter2ndDisplay_independent_iff (s : DispInfo) :
    filter2ndDisplay s = .ok ((), s.filtered) ∧
      (s.Independent ↔ s.outsideNum .secondary = 0 ∨ s.outsideNum .third = 0 ∨
        s.outsideNum .secondary = 1 ∧ s.outsideNum .third = 1) := by
  refine ⟨filter2ndDisplay_eq s, s.independent_iff.trans ?_⟩
  have hmax : 1 ≤ s.maxLayerCnt .secondary := by
    unfold DispInfo.maxLayerCnt
    split <;> omega
  have hcnt {k : ℕ} (hk : k ≤ 1) : s.layerCnt ≤ k ↔ s.outsideNum .secondary ≤ k :=
    length_foundBelow_le (by omega)
  have hzero := hcnt (Nat.zero_le 1)
  have hone := hcnt (Nat.le_refl 1)
  omega

/-- A secondary display with `n` layers and a third one with one layer. -/
def otherDisplays (n : ℕ) : DispInfo :=
  { primaryOnly [] (-1) (-1) with
    inputConfig := fun
      | .primary => []
      | .secondary => replicate n plainLayer
      | .third => [plainLayer] }

/-- The third display is rolled back or not with the same layers and range. -/
theorem not_independent_otherDisplays :
    (otherDisplays 0).part .third = (otherDisplays 2).part .third ∧
      wp filter2ndDisplay (fun _ s' => s'.glesRange .third = (-1, -1)) (otherDisplays 0) ∧
      wp filter2ndDisplay (fun _ s' => s'.glesRange .third = (0, 0)) (otherDisplays 2) := by
  refine ⟨rfl, ?_, ?_⟩ <;> decide

end Mt8169.Layering
