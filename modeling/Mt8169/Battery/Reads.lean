import Mt8169.Battery.Uisoc

/-!
# The rows that are read for the boot voltage

`fg_construct_battery_profile_by_vboot` and `fg_compensate_battery_voltage_from_low` read the table
at the row where a search ends. If no row is found, this is the row after the table or the one in
front of it.
-/

namespace Mt8169.Battery

open List

/-- The rows that `fg_construct_battery_profile_by_vboot` reads. The search and the loop that fills
the percentages in read the whole table. The flags say whether `bm_err` and `bm_debug` print. -/
def vbootReads (err debug : Bool) (p : Profile) (vboot : ℤ) : List ℤ :=
  let j := bootRow p vboot
  (range 100).map Nat.cast ++ (if j = 0 ∨ j ≥ 100 then [] else [j, j - 1]) ++
    (if err ∧ (capacityAt p vboot < 3000 ∨ capacityAt p vboot > 50000) then [j] else []) ++
    if debug then [j] else []

/-- The rows below `n` that a search from above reads. -/
def downReads (test : ProfileRow → Bool) (p : Profile) : ℕ → List ℤ
  | 0 => []
  | n + 1 => (n : ℤ) :: if test (p n) then [] else downReads test p n

/-- The voltage of a row under load is above the one looked for. -/
def hits (cfg : CustomData) (dcRatio oriv curr : ℤ) (row : ProfileRow) : Bool :=
  row.voltage + compensateValue cfg dcRatio curr row.resistance > oriv

/-- The rows that `fg_compensate_battery_voltage_from_low` reads: those of its two searches, with
the rows at their ends, and those of each round of the last loop. -/
def compensateReads (cfg : CustomData) (debug : Bool) (s : Algo) (oriv curr : ℤ) : List ℤ :=
  let top := topRow s.profile cfg.fgGetSaddles
  let high := lowRow cfg s oriv curr
  let percents := hitPercents s.profile high
  downReads (fun row => row.percentage < 10000) s.profile (cfg.fgGetSaddles - 1) ++
    (if debug ∧ top ≠ 0 then [(top : ℤ), top - 1] else []) ++
    downReads (hits cfg s.dcRatio oriv curr) s.profile top ++
    (if high ≠ 0 then [high, high - 1] else []) ++
    if percents.1 ≥ percents.2 then [high - 1, high] else []

/-- All rows are in the table. -/
def RowsInside (rows : List ℤ) : Prop := ∀ i ∈ rows, 0 ≤ i ∧ i < 100

variable {cfg : CustomData} {test : ProfileRow → Bool} {p : Profile} {n : ℕ} {i : ℤ}

/-- The search finds a row exactly if there is one. -/
theorem firstRow_range (test : ProfileRow → Bool) (p : Profile) (n : ℕ) (i : ℤ) :
    firstRow test p n i ≤ i + n ∧
      (firstRow test p n i < i + n ↔ ∃ k, i ≤ k ∧ k < i + n ∧ test (p k) = true) := by
  induction n generalizing i with
  | zero => simp [firstRow]; omega
  | succ n ih =>
    obtain ⟨hle, hiff⟩ := ih (i + 1)
    unfold firstRow
    split_ifs with htest
    · exact ⟨by omega, fun _ => ⟨i, by omega, by omega, htest⟩, fun _ => by omega⟩
    · refine ⟨by omega, ?_⟩
      rw [show i + ((n + 1 : ℕ) : ℤ) = i + 1 + n by omega, hiff]
      refine exists_congr fun k => ?_
      by_cases hk : k = i
      · simp [hk, htest]
      · exact ⟨fun h => ⟨by omega, h.2⟩, fun h => ⟨by omega, h.2⟩⟩

theorem inside_downReads (hn : n ≤ 100) : RowsInside (downReads test p n) := by
  induction n with
  | zero => exact nofun
  | succ n ih =>
    have hrest := ih (by omega)
    unfold RowsInside at hrest ⊢
    unfold downReads
    grind

theorem lt_topRow_iff {r : ℕ} :
    r < topRow p n ↔ ∃ m : ℕ, r ≤ m ∧ m + 1 < n ∧ (p m).percentage < 10000 := by
  induction n with
  | zero => simp [topRow]
  | succ n ih =>
    have hcast : 1 ≤ n → ((n - 1 : ℕ) : ℤ) = n - 1 := by omega
    unfold topRow
    split_ifs with htop
    · constructor
      · intro hr
        exact ⟨n - 1, by omega, by omega, by rw [hcast htop.1]; exact htop.2⟩
      · rintro ⟨m, hr, hm, -⟩
        omega
    · rw [ih]
      refine exists_congr fun m => and_congr_right fun _ => and_congr_left fun hlt => ?_
      have hne : m + 1 ≠ n := by
        rintro rfl
        exact htop ⟨by omega, by simpa using hlt⟩
      omega

/-- A row is hit exactly if one of the rows passes the test. -/
theorem hitRow_spec (cfg : CustomData) (p : Profile) (dcRatio oriv curr : ℤ) (n : ℕ) :
    hitRow cfg p dcRatio oriv curr n ≤ n ∧
      (hitRow cfg p dcRatio oriv curr n ≠ 0 ↔
        ∃ r < n, hits cfg dcRatio oriv curr (p r) = true) := by
  induction n with
  | zero => simp [hitRow]
  | succ n ih =>
    unfold hitRow
    split_ifs with hhit
    · exact ⟨Nat.le_refl _, fun _ => ⟨n, by omega, decide_eq_true hhit⟩, fun _ => by omega⟩
    · refine ⟨by omega, ih.2.trans (exists_congr fun r => and_congr_left fun hr => ?_)⟩
      have hne : r ≠ n := by
        rintro rfl
        exact hhit (of_decide_eq_true hr)
      omega

/-- The reads for the boot voltage are inside the table exactly if a row is below it, or nothing is
read. -/
theorem inside_vbootReads (err debug : Bool) (p : Profile) (vboot : ℤ) :
    RowsInside (vbootReads err debug p vboot) ↔
      (∃ i, 0 ≤ i ∧ i < 100 ∧ ((p i).voltage : ℤ) < vboot) ∨
        debug = false ∧ (err = true → 3000 ≤ (p 99).mah ∧ (p 99).mah ≤ 50000) := by
  have hlo : 0 ≤ bootRow p vboot := (firstRow_spec _ p 100 0).1
  have hrange : bootRow p vboot ≤ 0 + 100 ∧ _ := firstRow_range _ p 100 0
  have hlast : bootRow p vboot ≥ 100 → capacityAt p vboot = (p 99).mah := by
    intro h
    simp only [capacityAt, if_pos h]
    exact if_neg (by omega)
  rw [show (∃ i, 0 ≤ i ∧ i < 100 ∧ ((p i).voltage : ℤ) < vboot) ↔ bootRow p vboot < 100 by
    simpa [bootRow] using hrange.2.symm]
  unfold vbootReads RowsInside
  generalize bootRow p vboot = j at *
  constructor
  · intro h
    by_contra hnot
    have hj := h j (by simp only [mem_append]; grind)
    omega
  · intro h i hi
    simp only [mem_append, mem_map, mem_range] at hi
    grind

/-- All rows that are read are in the table exactly if a row is below the boot voltage, or nothing
is logged, and if a row is above the voltage looked for under load. -/
theorem rowsInside_iff (hsize : cfg.fgGetSaddles ≤ 100) (err debug : Bool) (s : Algo)
    (vboot oriv curr : ℤ) :
    RowsInside (vbootReads err debug s.profile vboot) ∧
        RowsInside (compensateReads cfg debug s oriv curr) ↔
      ((∃ i, 0 ≤ i ∧ i < 100 ∧ ((s.profile i).voltage : ℤ) < vboot) ∨
        debug = false ∧
          (err = true → 3000 ≤ (s.profile 99).mah ∧ (s.profile 99).mah ≤ 50000)) ∧
      ∃ r : ℕ, (∃ m : ℕ, r ≤ m ∧ m + 1 < cfg.fgGetSaddles ∧ (s.profile m).percentage < 10000) ∧
        hits cfg s.dcRatio oriv curr (s.profile r) = true := by
  refine and_congr (inside_vbootReads err debug s.profile vboot) ?_
  have htop : topRow s.profile cfg.fgGetSaddles < 100 := by
    by_contra hle
    obtain ⟨m, hm, hlt, -⟩ := lt_topRow_iff.mp (by omega : 99 < topRow s.profile cfg.fgGetSaddles)
    omega
  obtain ⟨hle, hpos⟩ := hitRow_spec cfg s.profile s.dcRatio oriv curr
    (topRow s.profile cfg.fgGetSaddles)
  have hdown (test : ProfileRow → Bool) := @inside_downReads test s.profile
  simp only [← lt_topRow_iff, ← hpos]
  unfold compensateReads lowRow hitPercents
  generalize topRow s.profile cfg.fgGetSaddles = top at *
  generalize hitRow cfg s.profile s.dcRatio oriv curr top = high at *
  have hfirst := hdown (fun row => row.percentage < 10000) (by omega : cfg.fgGetSaddles - 1 ≤ 100)
  have hsecond := hdown (hits cfg s.dcRatio oriv curr) (by omega : top ≤ 100)
  unfold RowsInside at *
  constructor
  · intro h hzero
    have hfront := h (-1) (by simp [hzero])
    omega
  · intro hne i hi
    simp only [mem_append] at hi
    grind

/-- The reads at one percent of charge are inside the table. -/
theorem rowsInside_onePercent : sampleData.fgGetSaddles ≤ 100 ∧
    RowsInside (vbootReads true true onePercent.profile 33500) ∧
    RowsInside (compensateReads sampleData true onePercent 33500 (-4000)) :=
  ⟨by decide, (rowsInside_iff (by decide) true true onePercent 33500 33500 (-4000)).mpr
    ⟨Or.inl ⟨86, by decide⟩, 0, ⟨0, by decide⟩, by decide⟩⟩

/-- No row is below the boot voltage, and none is above the voltage looked for. -/
theorem not_rowsInside : sampleData.fgGetSaddles ≤ 100 ∧
    100 ∈ vbootReads true true onePercent.profile 30000 ∧
    -1 ∈ compensateReads sampleData true onePercent 50000 0 := by
  decide +kernel

end Mt8169.Battery
