import Mathlib.Tactic.ByContra
import Mt8169.Lib.Runs
import Mt8169.Power.Charger

/-!
# The zones of the battery temperature

Between two zones of `do_sw_jeita_state_machine` there is a band of temperatures in which the last
zone is kept. The zone below T0 also has the band of the next border: a battery that was too cold
may charge just below T1, and not just above it.
-/

namespace Mt8169.Power

open Runs

variable (cfg : ChargerConfig)

/-- The order of the thresholds. -/
def JeitaOrdered : Prop :=
  (cfg.tempT0Thres ≤ cfg.tempT0ThresPlusXDegree ∧ cfg.tempT0ThresPlusXDegree < cfg.tempT1Thres) ∧
  (cfg.tempT1Thres ≤ cfg.tempT1ThresPlusXDegree ∧ cfg.tempT1ThresPlusXDegree < cfg.tempT2Thres) ∧
  (cfg.tempT2Thres ≤ cfg.tempT2ThresPlusXDegree ∧
    cfg.tempT2ThresPlusXDegree < cfg.tempT3ThresMinusXDegree) ∧
  (cfg.tempT3ThresMinusXDegree ≤ cfg.tempT3Thres ∧
    cfg.tempT3Thres < cfg.tempT4ThresMinusXDegree) ∧
  cfg.tempT4ThresMinusXDegree ≤ cfg.tempT4Thres
  deriving Decidable

/-- The zone that contains a temperature. -/
def zoneOf (temp : ℤ) : JeitaState :=
  if temp < cfg.tempT0Thres then .belowT0
  else if temp < cfg.tempT1Thres then .t0ToT1
  else if temp < cfg.tempT2Thres then .t1ToT2
  else if temp ≤ cfg.tempT3Thres then .t2ToT3
  else if temp < cfg.tempT4Thres then .t3ToT4
  else .aboveT4

/-- The temperature is in the band of the border that a zone has with the one that contains the
temperature. -/
def InBand (temp : ℤ) : JeitaState → JeitaState → Prop
  | .belowT0, .t0ToT1 => cfg.tempT0Thres ≤ temp ∧ temp ≤ cfg.tempT0ThresPlusXDegree
  | .t0ToT1, .t1ToT2 => cfg.tempT1Thres ≤ temp ∧ temp ≤ cfg.tempT1ThresPlusXDegree
  | .t1ToT2, .t2ToT3 => cfg.tempT2Thres ≤ temp ∧ temp ≤ cfg.tempT2ThresPlusXDegree
  | .t3ToT4, .t2ToT3 => cfg.tempT3ThresMinusXDegree ≤ temp ∧ temp ≤ cfg.tempT3Thres
  | .aboveT4, .t3ToT4 => cfg.tempT4ThresMinusXDegree ≤ temp ∧ temp < cfg.tempT4Thres
  | _, _ => False

/-- Charging is allowed at a temperature, from a zone. -/
def allowsAt (sm : JeitaState) (temp : ℤ) : Bool := (jeitaZone cfg temp sm).2

/-- What a step from a state has to give. -/
structure JeitaGood (j : SwJeita) (e : ℤ × ℕ) : Prop where
  zone : (j.step cfg e.1 e.2).sm = zoneOf cfg e.1 ∨
    InBand cfg e.1 (j.step cfg e.1 e.2).sm (zoneOf cfg e.1)
  charging : (j.step cfg e.1 e.2).charging = false ↔
    (j.step cfg e.1 e.2).sm = .aboveT4 ∨ (j.step cfg e.1 e.2).sm = .belowT0
  recovery : ∀ temp temp', allowsAt cfg j.sm temp = true →
    temp ≤ temp' ∧ temp' ≤ cfg.tempT3Thres ∨ cfg.tempT2Thres ≤ temp' ∧ temp' ≤ temp →
    allowsAt cfg j.sm temp' = true

/-- The battery was not too cold, or no temperature lies between the bands of T0 and T1 and the
new one is not in the band of T1. -/
def JeitaOk (j : SwJeita) (e : ℤ × ℕ) : Prop :=
  j.sm = .belowT0 → cfg.tempT1Thres = cfg.tempT0ThresPlusXDegree + 1 ∧
    ¬(cfg.tempT1Thres ≤ e.1 ∧ e.1 ≤ cfg.tempT1ThresPlusXDegree)
  deriving Decidable

variable {cfg}

/-- When charging is allowed at a temperature. -/
theorem allowsAt_iff (horder : JeitaOrdered cfg) (sm : JeitaState) (temp : ℤ) :
    allowsAt cfg sm temp = true ↔ cfg.tempT0Thres ≤ temp ∧ temp < cfg.tempT4Thres ∧
      (sm = .belowT0 → cfg.tempT0ThresPlusXDegree < temp ∧
        ¬(cfg.tempT1Thres ≤ temp ∧ temp ≤ cfg.tempT1ThresPlusXDegree)) ∧
      (sm = .aboveT4 → temp < cfg.tempT4ThresMinusXDegree) := by
  unfold JeitaOrdered at horder
  unfold allowsAt jeitaZone
  cases sm <;> grind

/-- The zone is right, up to its bands, in all cases but one. -/
theorem jeitaZone_right_iff (horder : JeitaOrdered cfg) (sm : JeitaState) (temp : ℤ) :
    (jeitaZone cfg temp sm).1 = zoneOf cfg temp ∨
        InBand cfg temp (jeitaZone cfg temp sm).1 (zoneOf cfg temp) ↔
      ¬(sm = .belowT0 ∧ cfg.tempT1Thres ≤ temp ∧ temp ≤ cfg.tempT1ThresPlusXDegree) := by
  unfold JeitaOrdered at horder
  unfold jeitaZone zoneOf
  cases sm <;> grind [InBand]

/-- Charging stops in the outer two zones. -/
theorem jeitaZone_charging (sm : JeitaState) (temp : ℤ) :
    (jeitaZone cfg temp sm).2 = false ↔
      (jeitaZone cfg temp sm).1 = .aboveT4 ∨ (jeitaZone cfg temp sm).1 = .belowT0 := by
  unfold jeitaZone
  grind

/-- A step is right exactly under its condition. -/
theorem jeitaGood_iff (horder : JeitaOrdered cfg) (j : SwJeita) (e : ℤ × ℕ) :
    JeitaGood cfg j e ↔ JeitaOk cfg j e := by
  have hzone := jeitaZone_right_iff horder j.sm e.1
  have hallows := allowsAt_iff horder j.sm
  unfold JeitaOrdered at horder
  constructor
  · rintro ⟨hright, -, hrecovery⟩ hcold
    have hnot := hzone.mp hright
    refine ⟨?_, fun hband => hnot ⟨hcold, hband⟩⟩
    -- a temperature between the bands allows charging, T1 does not
    by_contra hgap
    have hbetween := (hallows (cfg.tempT0ThresPlusXDegree + 1)).mpr
      ⟨by omega, by omega, fun _ => by omega, fun _ => by omega⟩
    have hborder := (hallows cfg.tempT1Thres).mp
      (hrecovery _ _ hbetween (Or.inl ⟨by omega, by omega⟩))
    have := (hborder.2.2.1 hcold).2
    omega
  · intro hok
    refine ⟨hzone.mpr fun hband => (hok hband.1).2 hband.2, jeitaZone_charging j.sm e.1, ?_⟩
    intro temp temp' hallowed hbetween
    rw [hallows] at hallowed ⊢
    refine ⟨by omega, by omega, fun hcold => ?_, fun hhot => ?_⟩
    · have := (hok hcold).1
      have := hallowed.2.2.1 hcold
      omega
    · have := hallowed.2.2.2 hhot
      omega

/-- In every sequence of temperatures all steps are right exactly if each of them meets its
condition. -/
theorem jeitaGood_iff_runOk (horder : JeitaOrdered cfg) (j : SwJeita) (es : List (ℤ × ℕ)) :
    (∀ pre e post, es = pre ++ e :: post →
        JeitaGood cfg (pre.foldl (fun j e => j.step cfg e.1 e.2) j) e) ↔
      RunOk (fun j e => SwJeita.step cfg e.1 e.2 j) (JeitaOk cfg) j es := by
  rw [← runOk_iff_forall_split]
  exact runOk_congr (fun _ => True) (fun j e _ => jeitaGood_iff horder j e)
    (fun _ _ _ _ => trivial) trivial es

/-- Thresholds with bands of two degrees. -/
def bandedConfig : ChargerConfig :=
  { defaultChargerConfig with
    tempT0Thres := 0, tempT0ThresPlusXDegree := 2, tempT1Thres := 10, tempT1ThresPlusXDegree := 12,
    tempT2Thres := 15, tempT2ThresPlusXDegree := 17, tempT3ThresMinusXDegree := 43,
    tempT3Thres := 45, tempT4ThresMinusXDegree := 48, tempT4Thres := 50 }

/-- From warm to room temperature. -/
theorem jeitaGood_warm : JeitaOrdered bandedConfig ∧
    ∀ pre e post, [((47 : ℤ), 0), (44, 0), (20, 0)] = pre ++ e :: post →
      JeitaGood bandedConfig
        (pre.foldl (fun j e => j.step bandedConfig e.1 e.2) ⟨.t2ToT3, true, 0⟩) e :=
  ⟨by decide, (jeitaGood_iff_runOk (by decide) _ _).mpr (by decide)⟩

/-- A battery of -5 degrees warms up: it may charge at 9 degrees, not at 11 degrees, and the zone is
still the one below T0 then. -/
theorem not_jeitaGood_warmingUp : JeitaOrdered bandedConfig ∧
    (SwJeita.step bandedConfig (-5) 0 ⟨.t2ToT3, true, 0⟩).sm = .belowT0 ∧
    allowsAt bandedConfig .belowT0 9 = true ∧ allowsAt bandedConfig .belowT0 11 = false ∧
    ¬JeitaGood bandedConfig (SwJeita.step bandedConfig (-5) 0 ⟨.t2ToT3, true, 0⟩) (11, 0) := by
  refine ⟨by decide, by decide, by decide, by decide, fun hgood => ?_⟩
  have hstay := hgood.recovery 9 11 (by decide) (Or.inl ⟨by decide, by decide⟩)
  exact absurd hstay (by decide)

end Mt8169.Power
