import Mt8169.Svs.Bank

/-!
# The bounds and the thermal effect of the set voltages

The clamp between the minimum of a bank and the signed-off voltages is on unsigned words. A sum
below zero is a large voltage, which passes the maximum, and its product with the step wraps to any
voltage. A temperature below zero is large in the same way.
-/

namespace Mt8169.Svs

open List Option Nat

namespace SvsBank

section Bounds

variable (b : SvsBank)

/-- The lowest voltage that the bank may set. -/
def floor : ℕ := b.voltBase.toNat + b.vmin.toNat * b.voltStep.toNat

/-- The voltage of an operating point in units of the bank exceeds the minimum by enough to pay for
the wraps of its conversion. -/
def PaysWraps (tempOffset : BitVec 32) (i : ℕ) : Prop :=
  2 ^ 32 * (((b.svsbVolt tempOffset i).toNat * b.voltStep.toNat + b.voltBase.toNat) / 2 ^ 32) ≤
    ((b.svsbVolt tempOffset i).toNat - b.vmin.toNat) * b.voltStep.toNat
  deriving Decidable

/-- The same for the phase that the bank is in. The error phase converts no voltage. -/
def PhasePaysWraps (tempOffset : BitVec 32) (i : ℕ) : Prop :=
  match b.phase with
  | .mon => b.PaysWraps tempOffset i
  | .init02 => b.PaysWraps 0 i
  | .error | .init01 => True

instance (tempOffset : BitVec 32) (i : ℕ) : Decidable (b.PhasePaysWraps tempOffset i) := by
  unfold PhasePaysWraps
  split <;> infer_instance

variable {b} {tempOffset : BitVec 32} {answer : ℕ → ℤ} {c : OppVoltage}

theorem vmin_le_svsbVolt (tempOffset : BitVec 32) (i : ℕ) :
    b.vmin.toNat ≤ (b.svsbVolt tempOffset i).toNat := by
  rw [svsbVolt, toNat_umax]
  exact Nat.le_max_right _ _

/-- The conversion stays above the floor exactly if it pays for its wraps. -/
theorem floor_le_convert_iff (tempOffset : BitVec 32) (i : ℕ) :
    b.floor ≤ (svsBankVoltToOppVolt (b.svsbVolt tempOffset i) b.voltStep b.voltBase).toNat ↔
      b.PaysWraps tempOffset i := by
  have hvmin := Nat.mul_le_mul_right b.voltStep.toNat (vmin_le_svsbVolt (b := b) tempOffset i)
  have hword : (svsBankVoltToOppVolt (b.svsbVolt tempOffset i) b.voltStep b.voltBase).toNat =
      ((b.svsbVolt tempOffset i).toNat * b.voltStep.toNat + b.voltBase.toNat) % 2 ^ 32 := by
    rw [svsBankVoltToOppVolt, BitVec.toNat_add, BitVec.toNat_mul, Nat.mod_add_mod]
  rw [hword, floor, PaysWraps, Nat.sub_mul]
  omega

theorem floor_le_oppVolt_iff {i : ℕ} {volt : BitVec 32}
    (hfloor : b.floor ≤ (b.oppVolts i).toNat) (hvolt : b.oppVolt tempOffset i = some volt) :
    b.floor ≤ volt.toNat ↔ b.PhasePaysWraps tempOffset i := by
  unfold oppVolt at hvolt
  unfold PhasePaysWraps
  cases hphase : b.phase with
  | mon =>
    rw [hphase] at hvolt
    obtain rfl := some.inj hvolt
    exact floor_le_convert_iff tempOffset i
  | init02 =>
    rw [hphase] at hvolt
    obtain rfl := some.inj hvolt
    exact floor_le_convert_iff 0 i
  | error =>
    rw [hphase] at hvolt
    obtain rfl := some.inj hvolt
    exact iff_true_intro hfloor
  | init01 =>
    rw [hphase] at hvolt
    exact absurd hvolt (by simp)

/-- The voltage of a call lies between the floor and the signed-off voltage. -/
def InBounds (b : SvsBank) (c : OppVoltage) : Prop :=
  b.floor ≤ c.uVolt.toNat ∧ c.uVolt.toNat ≤ (b.oppVolts c.index).toNat
  deriving Decidable

/-- And a call is in bounds exactly then. -/
theorem inBounds_of_mem_iff {is : List ℕ} {ret : ℤ}
    (hmem : c ∈ (b.setOppVolts tempOffset answer is ret).2)
    (hfloor : b.floor ≤ (b.oppVolts c.index).toNat) :
    b.InBounds c ↔ b.PhasePaysWraps tempOffset c.index := by
  obtain ⟨i, volt, -, hvolt, rfl⟩ := mem_setOppVolts hmem
  refine Iff.trans ?_ (floor_le_oppVolt_iff hfloor hvolt)
  unfold oppCall at hfloor
  unfold InBounds oppCall
  dsimp only at hfloor ⊢
  rw [toNat_umin]
  omega

end Bounds

/-- The bank and the thermal effect with which the voltages of a call of `svs_adjust_pm_opp_volts`
are computed: a zone that cannot be read leaves the error phase. -/
def effective (b : SvsBank) (zone : ZoneReading) : SvsBank × BitVec 32 :=
  if b.phase = .mon then
    (if zone.ret ≠ 0 then { b with phase := .error } else b, b.tempOffset zone.tzoneTemp)
  else (b, 0)

variable {forceUpdate : Bool}

theorem mem_sets {b : SvsBank} {zone : ZoneReading}
    (hmem : c ∈ (b.svsAdjustPmOppVolts forceUpdate zone answer).sets) :
    ∃ is ret, c ∈ ((b.effective zone).1.setOppVolts (b.effective zone).2 answer is ret).2 := by
  unfold svsAdjustPmOppVolts at hmem
  split at hmem
  · exact absurd hmem not_mem_nil
  · split at hmem
    · rename_i hphase
      split at hmem
      · exact absurd hmem not_mem_nil
      · unfold effective
        rw [if_pos hphase]
        exact ⟨_, _, hmem⟩
    · rename_i hphase
      unfold effective
      rw [if_neg hphase]
      exact ⟨_, _, hmem⟩

/-- In every phase, a voltage that `svs_adjust_pm_opp_volts` sets lies between the floor of the
bank and the signed-off voltage exactly if it pays for the wraps of its conversion. -/
theorem inBounds_iff_paysWraps (b : SvsBank) (forceUpdate : Bool) (zone : ZoneReading)
    (answer : ℕ → ℤ) (c : OppVoltage)
    (hmem : c ∈ (b.svsAdjustPmOppVolts forceUpdate zone answer).sets)
    (hfloor : b.floor ≤ (b.oppVolts c.index).toNat) :
    b.InBounds c ↔ (b.effective zone).1.PhasePaysWraps (b.effective zone).2 c.index := by
  obtain ⟨is, ret, hloop⟩ := mem_sets hmem
  have hfields : (b.effective zone).1.floor = b.floor ∧
      (b.effective zone).1.oppVolts = b.oppVolts := by
    unfold effective
    split
    · split <;> exact ⟨rfl, rfl⟩
    · exact ⟨rfl, rfl⟩
  rw [← inBounds_of_mem_iff hloop (by rw [hfields.1, hfields.2]; exact hfloor), InBounds, InBounds,
    hfields.1, hfields.2]

/-- A bank of the processor with all voltages at 0x30 and all signed-off ones at one volt. -/
def sampleBank : SvsBank where
  phase := .init02
  oppCount := 2
  oppVolts := fun _ => 1000000
  volts := fun _ => 0x30
  voltStep := 6250
  voltBase := 400000
  vmin := 0x20

/-- A voltage that pays for its wraps. -/
theorem inBounds_sample :
    ∃ c, (c ∈ (sampleBank.svsAdjustPmOppVolts false ⟨0, 0⟩ fun _ => 0).sets ∧
      sampleBank.floor ≤ (sampleBank.oppVolts c.index).toNat) ∧ sampleBank.InBounds c :=
  ⟨sampleBank.oppCall 700000 0, ⟨mem_cons_self, by decide⟩,
    (inBounds_iff_paysWraps sampleBank false ⟨0, 0⟩ (fun _ => 0) _ mem_cons_self
      (by decide)).mpr (by decide)⟩

/-- The bank with an offset that takes all its voltages below zero. -/
def offsetBank : SvsBank := { sampleBank with voltOffset := BitVec.ofInt 32 (-0x31) }

/-- The offset leaves a voltage of one unit below the base, which is below the floor. -/
theorem not_inBounds_offset :
    ((∀ i, (offsetBank.volts i).toNat ≤ 255) ∧ 0 < offsetBank.voltStep ∧
      ∀ i, offsetBank.floor ≤ (offsetBank.oppVolts i).toNat) ∧
      ∃ c ∈ (offsetBank.svsAdjustPmOppVolts true ⟨0, 0⟩ fun _ => 0).sets,
        c.uVolt = 393750 ∧ ¬ offsetBank.InBounds c :=
  ⟨⟨fun _ => show (0x30 : BitVec 32).toNat ≤ 255 by decide, by decide,
    fun _ => show offsetBank.floor ≤ (1000000 : BitVec 32).toNat by decide⟩, by decide⟩

section Thermal

variable (b : SvsBank)

/-- The thermal effect that the thresholds ask for. -/
def wantedOffset (temp : ℤ) : BitVec 32 :=
  if (b.tzoneHighTemp.toNat : ℤ) ≤ temp then b.tzoneHighTempOffset
  else if temp ≤ b.tzoneLowTemp.toNat then b.tzoneLowTempOffset
  else 0

/-- The thresholds are in order, and they are integers. -/
structure Thresholds : Prop where
  low_lt_high : b.tzoneLowTemp.toNat < b.tzoneHighTemp.toNat
  high_lt : b.tzoneHighTemp.toNat < 2 ^ 31

/-- The bank is in the monitor phase and its own sensor does not stop the update. -/
structure Monitors : Prop where
  mon : b.phase = .mon
  window : ¬(b.tempUpperBound < b.temp ∧ b.temp < b.tempLowerBound)

/-- The voltage that is set for an operating point with a thermal effect. -/
def clampedVolt (tempOffset : BitVec 32) (i : ℕ) : BitVec 32 :=
  umin (svsBankVoltToOppVolt (b.svsbVolt tempOffset i) b.voltStep b.voltBase) (b.oppVolts i)

/-- No temperature of a set yields a lower voltage than a higher temperature of the set does, for
any operating point. -/
def ColderNotLower (temps : ℤ → Prop) : Prop :=
  ∀ t1 t2 : BitVec 32, temps t1.toInt → temps t2.toInt → t1.toInt ≤ t2.toInt →
    ∀ force1 force2 answer1 answer2,
      ∀ c1 ∈ (b.svsAdjustPmOppVolts force1 ⟨0, t1⟩ answer1).sets,
        ∀ c2 ∈ (b.svsAdjustPmOppVolts force2 ⟨0, t2⟩ answer2).sets,
          c1.index = c2.index → c2.uVolt ≤ c1.uVolt

variable {b} {t : BitVec 32}

theorem tempOffset_of_neg (h : b.Thresholds) (ht : t.toInt < 0) :
    b.tempOffset t = b.tzoneHighTempOffset := by
  have hword : 2 ^ 31 ≤ t.toNat := by
    rw [BitVec.toInt_eq_toNat_cond] at ht
    split at ht <;> omega
  have hhot : b.tzoneHighTemp ≤ t := by
    rw [BitVec.le_def]
    exact Nat.le_trans (Nat.le_of_lt h.high_lt) hword
  rw [tempOffset, if_pos hhot]

theorem tempOffset_of_nonneg (ht : 0 ≤ t.toInt) : b.tempOffset t = b.wantedOffset t.toInt := by
  have hword : t.toInt = t.toNat := by
    rw [BitVec.toInt_eq_toNat_cond] at ht ⊢
    split at ht
    · rw [if_pos ‹_›]
    · omega
  unfold tempOffset wantedOffset
  rw [hword]
  simp only [BitVec.le_def, Int.ofNat_le]

/-- The offset is the wanted one, except that a negative temperature reads as hot. -/
theorem tempOffset_eq_wantedOffset_iff (h : b.Thresholds) (t : BitVec 32) :
    b.tempOffset t = b.wantedOffset t.toInt ↔
      0 ≤ t.toInt ∨ b.tzoneHighTempOffset = b.tzoneLowTempOffset := by
  rcases Int.lt_or_le t.toInt 0 with hneg | hnonneg
  · have hwanted : b.wantedOffset t.toInt = b.tzoneLowTempOffset := by
      unfold wantedOffset
      rw [if_neg (by omega), if_pos (by omega)]
    rw [tempOffset_of_neg h hneg, hwanted]
    exact ⟨Or.inr, fun hor => hor.resolve_left (by omega)⟩
  · exact iff_of_true (tempOffset_of_nonneg hnonneg) (Or.inl hnonneg)

theorem oppVolt_of_mon (hmon : b.phase = .mon) (tempOffset : BitVec 32) (i : ℕ) :
    b.oppVolt tempOffset i =
      some (svsBankVoltToOppVolt (b.svsbVolt tempOffset i) b.voltStep b.voltBase) := by
  unfold oppVolt
  rw [hmon]

/-- The voltages that a monitored bank sets. -/
theorem Monitors.uVolt_eq (h : b.Monitors)
    (hmem : c ∈ (b.svsAdjustPmOppVolts forceUpdate ⟨0, t⟩ answer).sets) :
    c.index < b.oppCount ∧ c.uVolt = b.clampedVolt (b.tempOffset t) c.index := by
  unfold svsAdjustPmOppVolts at hmem
  split at hmem
  · exact absurd hmem not_mem_nil
  · rw [if_pos h.mon, if_neg h.window] at hmem
    obtain ⟨i, volt, hi, hvolt, rfl⟩ := mem_setOppVolts hmem
    dsimp only [ne_eq] at hvolt ⊢
    rw [if_neg (by simp), oppVolt_of_mon h.mon] at hvolt
    obtain rfl := some.inj hvolt
    exact ⟨mem_range.mp hi, rfl⟩

theorem Monitors.exists_set (h : b.Monitors) (t : BitVec 32) {i : ℕ} (hi : i < b.oppCount) :
    ∃ c ∈ (b.svsAdjustPmOppVolts true ⟨0, t⟩ fun _ => 0).sets, c.index = i := by
  have hvolt (j : ℕ) (_ : j ∈ range b.oppCount) := oppVolt_of_mon h.mon (b.tempOffset t) j
  refine ⟨b.oppCall
    (svsBankVoltToOppVolt (b.svsbVolt (b.tempOffset t) i) b.voltStep b.voltBase) i, ?_, rfl⟩
  unfold svsAdjustPmOppVolts
  rw [if_neg (by simp), if_pos h.mon, if_neg h.window]
  exact oppCall_mem_setOppVolts hvolt (mem_range.mpr hi)

/-- The comparison over the calls is one over the clamped voltages. -/
theorem Monitors.colderNotLower_iff (h : b.Monitors) (temps : ℤ → Prop) :
    b.ColderNotLower temps ↔
      ∀ i < b.oppCount, ∀ t1 t2 : BitVec 32, temps t1.toInt → temps t2.toInt →
        t1.toInt ≤ t2.toInt →
          b.clampedVolt (b.tempOffset t2) i ≤ b.clampedVolt (b.tempOffset t1) i := by
  constructor
  · intro hcolder i hi t1 t2 h1 h2 hle
    obtain ⟨c1, hc1, rfl⟩ := h.exists_set t1 hi
    obtain ⟨c2, hc2, hsame⟩ := h.exists_set t2 hi
    have hvolts := hcolder t1 t2 h1 h2 hle _ _ _ _ c1 hc1 c2 hc2 hsame.symm
    rw [(h.uVolt_eq hc1).2, (h.uVolt_eq hc2).2, hsame] at hvolts
    exact hvolts
  · intro hall t1 t2 h1 h2 hle _ _ _ _ c1 hc1 c2 hc2 hsame
    obtain ⟨hi, hvolt1⟩ := h.uVolt_eq hc1
    rw [hvolt1, (h.uVolt_eq hc2).2, ← hsame]
    exact hall _ hi t1 t2 h1 h2 hle

/-- The voltages of an operating point in the cold, between the thresholds, if there is a
temperature, and in the heat do not rise. -/
def Falling (b : SvsBank) (i : ℕ) : Prop :=
  b.clampedVolt b.tzoneHighTempOffset i ≤ b.clampedVolt b.tzoneLowTempOffset i ∧
    (b.tzoneLowTemp.toNat + 1 < b.tzoneHighTemp.toNat →
      b.clampedVolt 0 i ≤ b.clampedVolt b.tzoneLowTempOffset i ∧
        b.clampedVolt b.tzoneHighTempOffset i ≤ b.clampedVolt 0 i)

/-- They are all one voltage. -/
def Flat (b : SvsBank) (i : ℕ) : Prop :=
  b.clampedVolt b.tzoneHighTempOffset i = b.clampedVolt b.tzoneLowTempOffset i ∧
    (b.tzoneLowTemp.toNat + 1 < b.tzoneHighTemp.toNat →
      b.clampedVolt 0 i = b.clampedVolt b.tzoneLowTempOffset i)

theorem wantedOffset_cases (h : b.Thresholds) (temp : ℤ) :
    temp ≤ b.tzoneLowTemp.toNat ∧ b.wantedOffset temp = b.tzoneLowTempOffset ∨
      (b.tzoneLowTemp.toNat < temp ∧ temp < b.tzoneHighTemp.toNat) ∧ b.wantedOffset temp = 0 ∨
      b.tzoneHighTemp.toNat ≤ temp ∧ b.wantedOffset temp = b.tzoneHighTempOffset := by
  have hlt := h.low_lt_high
  unfold wantedOffset
  split
  · exact Or.inr (Or.inr ⟨‹_›, rfl⟩)
  · split
    · exact Or.inl ⟨‹_›, rfl⟩
    · exact Or.inr (Or.inl ⟨⟨by omega, by omega⟩, rfl⟩)

theorem toInt_ofNat_of_lt {n : ℕ} (hn : n < 2 ^ 31) : (BitVec.ofNat 32 n).toInt = n := by
  rw [BitVec.toInt_eq_toNat_of_lt (by rw [BitVec.toNat_ofNat]; omega), BitVec.toNat_ofNat,
    mod_eq_of_lt (by omega)]

theorem tempOffset_ofNat {n : ℕ} (hn : n < 2 ^ 31) :
    b.tempOffset (BitVec.ofNat 32 n) = b.wantedOffset n := by
  rw [tempOffset_of_nonneg (by rw [toInt_ofNat_of_lt hn]; omega), toInt_ofNat_of_lt hn]

/-- Without frost, the voltages have to fall from cold to hot. -/
theorem Monitors.colderNotLower_nonneg_iff (h : b.Monitors) (hth : b.Thresholds) :
    b.ColderNotLower (0 ≤ ·) ↔ ∀ i < b.oppCount, b.Falling i := by
  rw [h.colderNotLower_iff]
  obtain ⟨hlt, hint⟩ := hth
  refine forall₂_congr fun i _ => ⟨?_, ?_⟩
  · intro hall
    -- the cold, a temperature between the thresholds, and the heat
    have hcold : b.wantedOffset (0 : ℕ) = b.tzoneLowTempOffset := by
      rw [wantedOffset, if_neg (by omega), if_pos (by omega)]
    have hhot : b.wantedOffset (b.tzoneHighTemp.toNat : ℕ) = b.tzoneHighTempOffset := by
      rw [wantedOffset, if_pos (by omega)]
    have hpair (m n : ℕ) (hmn : m ≤ n) (hn : n < 2 ^ 31) :
        b.clampedVolt (b.wantedOffset n) i ≤ b.clampedVolt (b.wantedOffset m) i := by
      have hm : m < 2 ^ 31 := by omega
      have hcolder := toInt_ofNat_of_lt hm
      have hwarmer := toInt_ofNat_of_lt hn
      rw [← tempOffset_ofNat hm, ← tempOffset_ofNat hn]
      exact hall _ _ (by omega) (by omega) (by omega)
    refine ⟨?_, fun hmid => ?_⟩
    · rw [← hhot, ← hcold]
      exact hpair _ _ (zero_le _) hint
    · have hbetween : b.wantedOffset (b.tzoneLowTemp.toNat + 1 : ℕ) = 0 := by
        rw [wantedOffset, if_neg (by omega), if_neg (by omega)]
      rw [← hbetween, ← hhot, ← hcold]
      exact ⟨hpair _ _ (zero_le _) (by omega), hpair _ _ (by omega) hint⟩
  · rintro ⟨hends, hmid⟩ t1 t2 h1 h2 hle
    rw [tempOffset_of_nonneg h1, tempOffset_of_nonneg h2]
    rcases wantedOffset_cases ⟨hlt, hint⟩ t1.toInt with ⟨ht1, heq1⟩ | ⟨ht1, heq1⟩ | ⟨ht1, heq1⟩ <;>
    rcases wantedOffset_cases ⟨hlt, hint⟩ t2.toInt with ⟨ht2, heq2⟩ | ⟨ht2, heq2⟩ | ⟨ht2, heq2⟩ <;>
    rw [heq1, heq2]
    all_goals first
      | exact BitVec.le_refl _
      | exact hends
      | exact (hmid (by omega)).1
      | exact (hmid (by omega)).2
      | omega

/-- With frost, they have to be the same. -/
theorem Monitors.colderNotLower_all_iff (h : b.Monitors) (hth : b.Thresholds) :
    b.ColderNotLower (fun _ => True) ↔ ∀ i < b.oppCount, b.Flat i := by
  constructor
  · intro hall i hi
    have hfalling : b.Falling i := by
      refine (h.colderNotLower_nonneg_iff hth).mp ?_ i hi
      exact fun t1 t2 _ _ => hall t1 t2 trivial trivial
    -- frost is taken for heat, so the voltage in the heat is not below the one in the cold
    have hfrost : b.clampedVolt b.tzoneLowTempOffset i ≤ b.clampedVolt b.tzoneHighTempOffset i := by
      have hcold : b.tempOffset (BitVec.ofNat 32 0) = b.tzoneLowTempOffset := by
        have := hth.low_lt_high
        rw [tempOffset_ofNat (by decide), wantedOffset, if_neg (by omega), if_pos (by omega)]
      have hneg : b.tempOffset (BitVec.allOnes 32) = b.tzoneHighTempOffset :=
        tempOffset_of_neg hth (by decide)
      rw [← hcold, ← hneg]
      exact (h.colderNotLower_iff _).mp hall i hi _ _ trivial trivial (by decide)
    have hsame := BitVec.le_antisymm hfalling.1 hfrost
    refine ⟨hsame, fun hmid => BitVec.le_antisymm (hfalling.2 hmid).1 ?_⟩
    rw [← hsame]
    exact (hfalling.2 hmid).2
  · intro hflat
    rw [h.colderNotLower_iff]
    have heffect (i : ℕ) (hi : i < b.oppCount) (t : BitVec 32) :
        b.clampedVolt (b.tempOffset t) i = b.clampedVolt b.tzoneLowTempOffset i := by
      obtain ⟨hends, hmid⟩ := hflat i hi
      rcases Int.lt_or_le t.toInt 0 with hneg | hnonneg
      · rw [tempOffset_of_neg hth hneg, hends]
      · rw [tempOffset_of_nonneg hnonneg]
        rcases wantedOffset_cases hth t.toInt with ⟨-, heq⟩ | ⟨hbetween, heq⟩ | ⟨-, heq⟩
        · rw [heq]
        · rw [heq, hmid (by omega)]
        · rw [heq, hends]
    intro i hi t1 t2 _ _ _
    rw [heffect i hi t1, heffect i hi t2]
    exact BitVec.le_refl _

/-- A bank that monitors sets every voltage with the thermal effect that its thresholds ask for
exactly at the temperatures that are not negative, if the two effects differ. From zero on, no
colder temperature yields a lower voltage exactly if the voltages fall from the cold to the heat.
Over all temperatures, this is so exactly if the thermal effect changes no voltage. -/
theorem thermalEffect_iff (b : SvsBank) (hmonitors : b.Monitors) (hthresholds : b.Thresholds) :
    (∀ forceUpdate t answer, ∀ c ∈ (b.svsAdjustPmOppVolts forceUpdate ⟨0, t⟩ answer).sets,
      c.uVolt = b.clampedVolt (b.tempOffset t) c.index) ∧
    (∀ t, b.tempOffset t = b.wantedOffset t.toInt ↔
      0 ≤ t.toInt ∨ b.tzoneHighTempOffset = b.tzoneLowTempOffset) ∧
    (b.ColderNotLower (0 ≤ ·) ↔ ∀ i < b.oppCount, b.Falling i) ∧
    (b.ColderNotLower (fun _ => True) ↔ ∀ i < b.oppCount, b.Flat i) :=
  ⟨fun _ _ _ _ hmem => (hmonitors.uVolt_eq hmem).2, tempOffset_eq_wantedOffset_iff hthresholds,
    hmonitors.colderNotLower_nonneg_iff hthresholds, hmonitors.colderNotLower_all_iff hthresholds⟩

end Thermal

/-- The bank in the monitor phase, with eight units more in the cold. -/
def monitorBank : SvsBank :=
  { sampleBank with
    phase := .mon, tzoneHighTemp := 85000, tzoneLowTemp := 25000, tzoneLowTempOffset := 8 }

/-- The bank monitors, and from zero on no colder temperature yields a lower voltage. -/
theorem thermalEffect_monitorBank :
    (monitorBank.Monitors ∧ monitorBank.Thresholds) ∧ monitorBank.ColderNotLower (0 ≤ ·) :=
  ⟨⟨⟨rfl, by decide⟩, ⟨by decide, by decide⟩⟩,
    (thermalEffect_iff monitorBank ⟨rfl, by decide⟩ ⟨by decide, by decide⟩).2.2.1.mpr
      fun _ _ => ⟨show monitorBank.clampedVolt 0 0 ≤ monitorBank.clampedVolt 8 0 by decide,
        fun _ => ⟨show monitorBank.clampedVolt 0 0 ≤ monitorBank.clampedVolt 8 0 by decide,
          show monitorBank.clampedVolt 0 0 ≤ monitorBank.clampedVolt 0 0 by decide⟩⟩⟩

/-- One degree below zero the bank adds nothing, where it should add eight units, and its voltages
are lower than at zero. -/
theorem not_thermalEffect_frost :
    (monitorBank.Monitors ∧ monitorBank.Thresholds ∧
      monitorBank.tzoneHighTempOffset ≤ monitorBank.tzoneLowTempOffset) ∧
    monitorBank.tempOffset (BitVec.ofInt 32 (-1)) ≠ monitorBank.wantedOffset (-1) ∧
    ∃ c1 ∈ (monitorBank.svsAdjustPmOppVolts false ⟨0, BitVec.ofInt 32 (-1)⟩ fun _ => 0).sets,
      ∃ c2 ∈ (monitorBank.svsAdjustPmOppVolts false ⟨0, 0⟩ fun _ => 0).sets,
        c1.index = c2.index ∧ c1.uVolt < c2.uVolt :=
  ⟨⟨⟨rfl, by decide⟩, ⟨by decide, by decide⟩, by decide⟩, by decide, by decide⟩

end SvsBank

end Mt8169.Svs
