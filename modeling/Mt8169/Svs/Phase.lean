import Mt8169.Svs.Bank
import Mt8169.Lib.Runs
import Mathlib.Logic.Function.Basic

/-!
# The phases of a bank

The interrupt of the phase INIT01 leaves two offsets in a bank, which `svs_set_bank_phase` packs
into `INIT2VALS` on entering the phase INIT02. The offset for the design corner is negated as a
32-bit word and packed without a mask.
-/

namespace Mt8169.Svs

open Runs Function

/-- The registers of `enum svs_reg_index` that `svs_set_bank_phase` writes. -/
inductive SvsReg where
  | desChar | tempChar | detChar | dcConfig | ageConfig | freqPct30 | freqPct74 | limitVals | vboot
  | detWindow | config | tsCalcs | runConfig | svsEn | init2Vals | intSts | intEn | chkShift | ctl0
  | coreSel
  deriving DecidableEq, Repr

/-- What the function `set_freqs_pct` of a bank finds: two words of percentages, and the turn
point. -/
structure FreqsPct where
  pct74 : BitVec 32
  pct30 : BitVec 32
  turnPt : ℕ

namespace SvsBank

variable (b : SvsBank)

/-- The word for `RUNCONFIG` of a bank with an age mode: every field of two bits that the
configuration leaves empty becomes 1. -/
def runConfig : BitVec 32 :=
  (List.range 12).foldl (fun val k =>
    let filter := (0x3 : BitVec 32) <<< (2 * k)
    if b.ageConfig &&& filter = 0 then val ||| (0x1 : BitVec 32) <<< (2 * k)
    else val ||| (b.ageConfig &&& filter)) 0

/-- The word for `INIT2VALS`. -/
def init2Vals : BitVec 32 := b.ageVoffsetIn <<< 16 ||| b.dcVoffsetIn

/-- The writes of `svs_set_bank_phase`, in their order. -/
def svsSetBankPhase (pct : FreqsPct) (targetPhase : SvsbPhase) : List (SvsReg × BitVec 32) :=
  [(.coreSel, b.coreSel), (.desChar, b.bdes <<< 8 ||| b.mdes),
    (.tempChar, b.vco <<< 16 ||| b.mtdes <<< 8 ||| b.dvtFixed),
    (.detChar, b.dcbdet <<< 8 ||| b.dcmdet), (.dcConfig, b.dcConfig), (.ageConfig, b.ageConfig),
    (.runConfig, if b.agem = 0 then 0x80000000 else b.runConfig), (.freqPct74, pct.pct74),
    (.freqPct30, pct.pct30),
    (.limitVals, b.vmax <<< 24 ||| b.vmin <<< 16 ||| b.dthi <<< 8 ||| b.dtlo), (.vboot, b.vboot),
    (.detWindow, b.detWindow), (.config, b.detMax)] ++
  (if b.chkShift ≠ 0 then [(.chkShift, b.chkShift)] else []) ++
  (if b.ctl0 ≠ 0 then [(.ctl0, b.ctl0)] else []) ++
  [(.intSts, 0x00ffffff)] ++
  match targetPhase with
  | .init01 => [(.intEn, 0x00005f01), (.svsEn, 0x1)]
  | .init02 => [(.intEn, 0x00005f01), (.init2Vals, b.init2Vals), (.svsEn, 0x5)]
  | .mon => [(.tsCalcs, b.bts <<< 12 ||| b.mts), (.intEn, 0x00ff0000), (.svsEn, 0x2)]
  | .error => []

variable {b}

theorem mem_svsSetBankPhase_init02_iff (pct : FreqsPct) (w : BitVec 32) :
    (.init2Vals, w) ∈ b.svsSetBankPhase pct .init02 ↔ w = b.init2Vals := by
  unfold svsSetBankPhase
  split <;> split <;> simp

end SvsBank

/-- What an interrupt reads: the registers, the result of the function `get_vops` of the bank, and
what the update of the voltages reads. -/
structure IsrReading where
  intSt : ℕ → BitVec 32
  intSts : BitVec 32
  svsEn : BitVec 32
  dcValues : BitVec 32
  ageValues : BitVec 32
  temp : BitVec 32
  volts : ℕ → BitVec 32
  turnPt : ℕ
  zone : ZoneReading
  answer : ℕ → ℤ

/-- The handlers of `svs_isr`. -/
inductive IsrHandler where
  | init01 | init02 | mon | error
  deriving DecidableEq, Repr

/-- The offset for the design corner: the lower half of the register, negated as a 32-bit word. -/
def negatedDc (dcValues : BitVec 32) : BitVec 32 := ~~~(dcValues &&& 0xffff#32) + 1#32

/-- The flags suppress the offset: always, or if it is negative as a 16-bit number. -/
def Suppressed (voltFlags dcValues : BitVec 32) : Prop :=
  voltFlags &&& 0x2 ≠ 0 ∨ negatedDc dcValues &&& 0x8000 ≠ 0 ∧ voltFlags &&& 0x4 ≠ 0
  deriving Decidable

namespace SvsBank

variable (b : SvsBank)

variable (r : IsrReading)

/-- The handler that `svs_isr` chooses for a bank that fires. A suspended bank has none. -/
def handler : Option IsrHandler :=
  if b.suspended then none
  else if r.intSts = 0x1 ∧ r.svsEn &&& 0x7 = 0x1 then some .init01
  else if r.intSts = 0x1 ∧ r.svsEn &&& 0x7 = 0x5 then some .init02
  else if r.intSts &&& 0x00ff0000 ≠ 0 then some .mon
  else some .error

/-- `svs_init01_isr_handler`. -/
def svsInit01IsrHandler : SvsBank :=
  { b with
    phase := .init01
    dcVoffsetIn := if Suppressed b.voltFlags r.dcValues then 0#32 else negatedDc r.dcValues
    ageVoffsetIn := r.ageValues &&& 0xffff#32
    coreSel := b.coreSel &&& ~~~0x80000000 }

/-- `svs_init02_isr_handler`. -/
def svsInit02IsrHandler : SvsBank :=
  { b with phase := .init02, volts := r.volts, turnPt := r.turnPt }

/-- `svs_mon_mode_isr_handler`. -/
def svsMonModeIsrHandler : SvsBank :=
  { b with phase := .mon, temp := r.temp &&& 0xff, volts := r.volts, turnPt := r.turnPt }

/-- `svs_error_isr_handler`. -/
def svsErrorIsrHandler : SvsBank := { b with modeSupport := 0, phase := .error }

/-- The bank after its handler. -/
def handled : SvsBank :=
  match b.handler r with
  | none => b
  | some .init01 => b.svsInit01IsrHandler r
  | some .init02 => b.svsInit02IsrHandler r
  | some .mon => b.svsMonModeIsrHandler r
  | some .error => b.svsErrorIsrHandler

/-- The bank after an update of its voltages, which may change the phase. -/
def updated (forceUpdate : Bool) (zone : ZoneReading) (answer : ℕ → ℤ) : SvsBank :=
  { b with phase := (b.svsAdjustPmOppVolts forceUpdate zone answer).phase }

/-- The end of `svs_isr` for a bank. -/
def isrUpdated : SvsBank :=
  if b.phase ≠ .init01 then b.updated false r.zone r.answer else b

end SvsBank

/-- The banks of `struct svs_platform`. -/
structure SvsPlatform where
  bankNum : ℕ
  banks : ℕ → SvsBank

/-- What the driver does to its banks after its probe. -/
inductive SvsEvent where
  /-- `svs_isr`. -/
  | isr (r : IsrReading)
  /-- `svs_set_bank_phase`. -/
  | setPhase (idx : ℕ) (pct : FreqsPct) (targetPhase : SvsbPhase)
  /-- `svs_sync_bank_volts_from_opp`, with the voltages of the operating points. -/
  | sync (idx : ℕ) (volts : ℕ → BitVec 32)
  /-- One bank of `svs_suspend`. -/
  | suspend (idx : ℕ) (zone : ZoneReading) (answer : ℕ → ℤ)
  /-- One bank of `svs_resume`. -/
  | resume (idx : ℕ)
  /-- `svs_enable_debug_write`, which only disables a bank. -/
  | disable (idx : ℕ) (zone : ZoneReading) (answer : ℕ → ℤ)
  /-- `svs_volt_offset_debug_write`. -/
  | voltOffset (idx : ℕ) (voltOffset : BitVec 32) (zone : ZoneReading) (answer : ℕ → ℤ)

namespace SvsPlatform

variable (p : SvsPlatform)

def setBank (idx : ℕ) (b : SvsBank) : SvsPlatform :=
  { p with banks := update p.banks idx b }

/-- The first bank whose bit is clear in `INTST`. -/
def firing (r : IsrReading) : Option ℕ :=
  (List.range p.bankNum).find? fun idx => (p.banks idx).intSt &&& r.intSt idx = 0

/-- `svs_isr`. If no bank fires, the last one is updated. -/
def svsIsr (r : IsrReading) : SvsPlatform :=
  match p.firing r with
  | some idx => p.setBank idx (((p.banks idx).handled r).isrUpdated r)
  | none => p.setBank (p.bankNum - 1) ((p.banks (p.bankNum - 1)).isrUpdated r)

def step : SvsEvent → SvsPlatform
  | .isr r => p.svsIsr r
  | .setPhase idx pct _ => p.setBank idx { p.banks idx with turnPt := pct.turnPt }
  | .sync idx volts => p.setBank idx { p.banks idx with volts := volts }
  | .suspend idx zone answer =>
    p.setBank idx (
      if (p.banks idx).phase ≠ .init01 then
        { p.banks idx with suspended := true, phase := .error }.updated true zone answer
      else { p.banks idx with suspended := true })
  | .resume idx => p.setBank idx { p.banks idx with suspended := false }
  | .disable idx zone answer =>
    p.setBank idx ({ p.banks idx with modeSupport := 0, phase := .error }.updated true zone answer)
  | .voltOffset idx voltOffset zone answer =>
    p.setBank idx ({ p.banks idx with voltOffset := voltOffset }.updated true zone answer)

/-- An event is the INIT01 interrupt of a bank. -/
def Init01Isr (k : ℕ) : SvsEvent → Prop
  | .isr r => p.firing r = some k ∧ (p.banks k).handler r = some .init01
  | _ => False

end SvsPlatform

/-- Two states of a bank have the same offsets. -/
def SvsBank.SameOffsets (b b' : SvsBank) : Prop :=
  b'.dcVoffsetIn = b.dcVoffsetIn ∧ b'.ageVoffsetIn = b.ageVoffsetIn

theorem SvsBank.sameOffsets_isrUpdated (b : SvsBank) (r : IsrReading) :
    b.SameOffsets (b.isrUpdated r) := by
  unfold SvsBank.isrUpdated
  split <;> exact ⟨rfl, rfl⟩

theorem SvsBank.sameOffsets_handled {b : SvsBank} {r : IsrReading}
    (h : b.handler r ≠ some .init01) : b.SameOffsets (b.handled r) := by
  unfold SvsBank.handled
  split
  · exact ⟨rfl, rfl⟩
  · exact absurd ‹_› h
  · exact ⟨rfl, rfl⟩
  · exact ⟨rfl, rfl⟩
  · exact ⟨rfl, rfl⟩

namespace SvsPlatform

variable {p : SvsPlatform} {k : ℕ}

theorem sameOffsets_setBank {idx : ℕ} {b : SvsBank} (h : idx = k → (p.banks idx).SameOffsets b) :
    (p.banks k).SameOffsets ((p.setBank idx b).banks k) := by
  unfold setBank
  dsimp only
  by_cases heq : k = idx
  · subst heq
    rw [update_self]
    exact h rfl
  · rw [update_of_ne heq]
    exact ⟨rfl, rfl⟩

/-- Only the INIT01 interrupt changes the offsets. -/
theorem sameOffsets_step {e : SvsEvent} (he : ¬ p.Init01Isr k e) :
    (p.banks k).SameOffsets ((p.step e).banks k) := by
  cases e with
  | isr r =>
    unfold step svsIsr
    dsimp only
    split
    · rename_i idx hfiring
      refine sameOffsets_setBank ?_
      rintro rfl
      have hhandled := SvsBank.sameOffsets_handled (fun hinit => he ⟨hfiring, hinit⟩)
      have hupdated := ((p.banks idx).handled r).sameOffsets_isrUpdated r
      exact ⟨hupdated.1.trans hhandled.1, hupdated.2.trans hhandled.2⟩
    · exact sameOffsets_setBank fun _ => SvsBank.sameOffsets_isrUpdated _ r
  | suspend idx zone answer =>
    refine sameOffsets_setBank fun _ => ?_
    split <;> exact ⟨rfl, rfl⟩
  | setPhase idx pct target | sync idx volts | resume idx | disable idx zone answer
  | voltOffset idx offset zone answer =>
    exact sameOffsets_setBank fun _ => ⟨rfl, rfl⟩

/-- They stay the same over a run without it. -/
theorem sameOffsets_run {es : List SvsEvent}
    (hes : RunOk step (fun p e => ¬ p.Init01Isr k e) p es) :
    (p.banks k).SameOffsets ((es.foldl step p).banks k) := by
  induction es generalizing p with
  | nil => exact ⟨rfl, rfl⟩
  | cons e es ih =>
    have hstep := sameOffsets_step hes.1
    have hrest := ih hes.2
    exact ⟨hrest.1.trans hstep.1, hrest.2.trans hstep.2⟩

/-- The offsets that the INIT01 interrupt leaves. -/
theorem offsets_svsIsr {r : IsrReading} (h : p.Init01Isr k (.isr r)) :
    ((p.svsIsr r).banks k).dcVoffsetIn =
        (if Suppressed (p.banks k).voltFlags r.dcValues then 0#32 else negatedDc r.dcValues) ∧
      ((p.svsIsr r).banks k).ageVoffsetIn = r.ageValues &&& 0xffff#32 := by
  obtain ⟨hfiring, hhandler⟩ := h
  have hbank : (p.svsIsr r).banks k = (p.banks k).svsInit01IsrHandler r := by
    unfold svsIsr setBank
    rw [hfiring]
    dsimp only
    rw [update_self, SvsBank.handled, hhandler]
    rfl
  rw [hbank]
  exact ⟨rfl, rfl⟩

end SvsPlatform

theorem toNat_and_0xffff (x : BitVec 32) : (x &&& 0xffff#32).toNat = x.toNat % 2 ^ 16 := by
  rw [BitVec.toNat_and]
  exact Nat.and_two_pow_sub_one_eq_mod x.toNat 16

variable (dcValues : BitVec 32)

theorem toNat_negatedDc :
    (negatedDc dcValues).toNat = (2 ^ 32 - dcValues.toNat % 2 ^ 16) % 2 ^ 32 := by
  rw [negatedDc, ← BitVec.neg_eq_not_add, BitVec.toNat_neg, toNat_and_0xffff]

theorem setWidth_negatedDc : (negatedDc dcValues).setWidth 16 = -dcValues.setWidth 16 := by
  apply BitVec.eq_of_toNat_eq
  rw [BitVec.toNat_setWidth, toNat_negatedDc, BitVec.toNat_neg, BitVec.toNat_setWidth]
  omega

/-- A negated offset carries ones into the upper half unless it is zero. -/
theorem extractLsb'_negatedDc :
    (negatedDc dcValues).extractLsb' 16 16 =
      if dcValues.setWidth 16 = 0#16 then 0#16 else BitVec.allOnes 16 := by
  apply BitVec.eq_of_toNat_eq
  rw [BitVec.extractLsb'_toNat, toNat_negatedDc, Nat.shiftRight_eq_div_pow]
  by_cases hzero : dcValues.setWidth 16 = 0#16
  · have hmod := congrArg BitVec.toNat hzero
    rw [BitVec.toNat_setWidth] at hmod
    rw [if_pos hzero, hmod]
    rfl
  · have hmod : dcValues.toNat % 2 ^ 16 ≠ 0 := by
      intro hmod
      exact hzero (BitVec.eq_of_toNat_eq (by rw [BitVec.toNat_setWidth, hmod]; rfl))
    rw [if_neg hzero, BitVec.toNat_allOnes]
    omega

/-- The word should hold the age in its upper half, and in its lower half the negated offset,
unless the flags suppress it. -/
def RightInit2Vals (voltFlags : BitVec 32) (r : IsrReading) (w : BitVec 32) : Prop :=
  w.extractLsb' 16 16 = r.ageValues.setWidth 16 ∧
    w.setWidth 16 = if Suppressed voltFlags r.dcValues then 0#16 else -r.dcValues.setWidth 16
  deriving Decidable

/-- The packed word is right exactly if the upper half takes those ones. -/
theorem rightInit2Vals_pack_iff (voltFlags : BitVec 32) (r : IsrReading) :
    RightInit2Vals voltFlags r ((r.ageValues &&& 0xffff#32) <<< 16 |||
        if Suppressed voltFlags r.dcValues then 0#32 else negatedDc r.dcValues) ↔
      Suppressed voltFlags r.dcValues ∨ r.dcValues.setWidth 16 = 0#16 ∨
        r.ageValues.setWidth 16 = BitVec.allOnes 16 := by
  have hageHigh : ((r.ageValues &&& 0xffff#32) <<< 16).extractLsb' 16 16 =
      r.ageValues.setWidth 16 := by
    apply BitVec.eq_of_toNat_eq
    rw [BitVec.extractLsb'_toNat, BitVec.toNat_shiftLeft, toNat_and_0xffff, BitVec.toNat_setWidth,
      Nat.shiftLeft_eq, Nat.shiftRight_eq_div_pow]
    omega
  have hageLow : ((r.ageValues &&& 0xffff#32) <<< 16).setWidth 16 = 0#16 := by
    apply BitVec.eq_of_toNat_eq
    rw [BitVec.toNat_setWidth, BitVec.toNat_shiftLeft, toNat_and_0xffff, Nat.shiftLeft_eq,
      BitVec.toNat_ofNat]
    omega
  unfold RightInit2Vals
  by_cases hsuppressed : Suppressed voltFlags r.dcValues
  · rw [if_pos hsuppressed, if_pos hsuppressed]
    simp only [BitVec.or_zero, hageHigh, hageLow, hsuppressed, and_self, true_or]
  · rw [if_neg hsuppressed, if_neg hsuppressed, BitVec.extractLsb'_or, BitVec.setWidth_or, hageHigh,
      hageLow, setWidth_negatedDc, extractLsb'_negatedDc]
    by_cases hzero : r.dcValues.setWidth 16 = 0#16
    · simp [hzero]
    · rw [if_neg hzero, BitVec.or_allOnes, BitVec.zero_or, and_iff_left rfl, eq_comm]
      simp [hzero, hsuppressed]

/-- The word that is written for the phase INIT02, any time after the INIT01 interrupt of a bank
and before its next one, is right exactly if the flags suppress the offset, or the lower half of
`DCVALUES` is zero, or the one of `AGEVALUES` has all its bits set. -/
theorem init2Vals_right_iff (p : SvsPlatform) (k : ℕ) (r : IsrReading)
    (hisr : p.Init01Isr k (.isr r)) (es : List SvsEvent)
    (hes : RunOk SvsPlatform.step (fun p e => ¬ p.Init01Isr k e) (p.svsIsr r) es) (pct : FreqsPct) :
    (∀ w, (.init2Vals, w) ∈
        ((es.foldl SvsPlatform.step (p.svsIsr r)).banks k).svsSetBankPhase pct .init02 →
          RightInit2Vals (p.banks k).voltFlags r w) ↔
      Suppressed (p.banks k).voltFlags r.dcValues ∨ r.dcValues.setWidth 16 = 0#16 ∨
        r.ageValues.setWidth 16 = BitVec.allOnes 16 := by
  simp only [SvsBank.mem_svsSetBankPhase_init02_iff, forall_eq]
  obtain ⟨hdc, hage⟩ := SvsPlatform.sameOffsets_run hes
  obtain ⟨hdc', hage'⟩ := SvsPlatform.offsets_svsIsr hisr
  rw [SvsBank.init2Vals, hdc, hage, hdc', hage']
  exact rightInit2Vals_pack_iff _ r

/-- A platform with one bank, before its first interrupt. -/
def samplePlatform : SvsPlatform where
  bankNum := 1
  banks := fun _ =>
    { phase := .error, intSt := 1, oppCount := 0, oppVolts := fun _ => 0, volts := fun _ => 0,
      voltStep := 6250, voltBase := 400000, vmin := 0x20 }

/-- The INIT01 interrupt of this bank. -/
def sampleReading (ageValues : BitVec 32) : IsrReading where
  intSt := fun _ => 0
  intSts := 0x1
  svsEn := 0x1
  dcValues := dcValues
  ageValues := ageValues
  temp := 0
  volts := fun _ => 0
  turnPt := 0
  zone := ⟨0, 0⟩
  answer := fun _ => 0

/-- The bank is suspended and resumed, gets another voltage offset, and has an interrupt of its
monitor mode. -/
def eventsAfterInit01 : List SvsEvent :=
  [.suspend 0 ⟨0, 0⟩ fun _ => 0, .resume 0, .voltOffset 0 2 ⟨0, 0⟩ fun _ => 0,
    .isr { sampleReading 3 7 with intSts := 0x00010000 }]

/-- With all ones as the age, the word is right after these events, for an offset of one as well. -/
theorem init2Vals_right_allOnes :
    samplePlatform.Init01Isr 0 (.isr (sampleReading 1 0xffff)) ∧
      RunOk SvsPlatform.step (fun p e => ¬p.Init01Isr 0 e)
        (samplePlatform.svsIsr (sampleReading 1 0xffff)) eventsAfterInit01 ∧
      (.init2Vals, 0xffffffff) ∈ ((eventsAfterInit01.foldl SvsPlatform.step
        (samplePlatform.svsIsr (sampleReading 1 0xffff))).banks 0).svsSetBankPhase
          ⟨0, 0, 0⟩ .init02 ∧
      ∀ w, (.init2Vals, w) ∈ ((eventsAfterInit01.foldl SvsPlatform.step
        (samplePlatform.svsIsr (sampleReading 1 0xffff))).banks 0).svsSetBankPhase
          ⟨0, 0, 0⟩ .init02 → RightInit2Vals 0 (sampleReading 1 0xffff) w := by
  have hisr : samplePlatform.Init01Isr 0 (.isr (sampleReading 1 0xffff)) := ⟨rfl, rfl⟩
  have hrun : RunOk SvsPlatform.step (fun p e => ¬p.Init01Isr 0 e)
      (samplePlatform.svsIsr (sampleReading 1 0xffff)) eventsAfterInit01 :=
    ⟨not_false, not_false, not_false, fun h => absurd h.2 (by decide), trivial⟩
  exact ⟨hisr, hrun, by decide, (init2Vals_right_iff samplePlatform 0 (sampleReading 1 0xffff) hisr
    eventsAfterInit01 hrun ⟨0, 0, 0⟩).mpr (Or.inr (Or.inr rfl))⟩

/-- An offset of one fills the upper half, in which the age is lost. -/
theorem init2Vals_not_right_offset :
    samplePlatform.Init01Isr 0 (.isr (sampleReading 1 5)) ∧
      (.init2Vals, 0xffffffff) ∈
        ((samplePlatform.svsIsr (sampleReading 1 5)).banks 0).svsSetBankPhase
        ⟨0, 0, 0⟩ .init02 ∧ ¬ RightInit2Vals 0 (sampleReading 1 5) 0xffffffff :=
  ⟨⟨rfl, rfl⟩, by decide, by decide⟩

end Mt8169.Svs
