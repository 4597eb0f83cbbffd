import Mt8169.Lib.Runs
import Mt8169.Power.Pd

/-!
# The profiles that are requested

The algorithm requests profiles by the indices that it keeps. The table is read again before each
use, but the index is not compared with the size of the new table. Over every sequence of
operations, an operation requests profiles of the table read last exactly when the index it takes is
below its size.
-/

namespace Mt8169.Power

open MachineInt Runs PdBus MtkPd PdState List Option

section Table

variable (cfg : PdConfig) {idx : ℤ}

theorem foldl_range_index {f : ℤ → ℕ → ℤ} (hf : ∀ idx i, f idx i = idx ∨ f idx i = i) (n : ℕ)
    (start : ℤ) :
    (range n).foldl f start = start ∨
      (0 ≤ (range n).foldl f start ∧ (range n).foldl f start < n) := by
  induction n with
  | zero => exact Or.inl rfl
  | succ n ih =>
    rw [range_succ, foldl_append]
    rcases hf ((range n).foldl f start) n with heq | heq
    · rw [foldl_cons, foldl_nil, heq]
      rcases ih with hstart | hrange
      · exact Or.inl hstart
      · right
        omega
    · right
      rw [foldl_cons, foldl_nil, heq]
      omega

theorem resetIdxOf_nonneg (cap : PdPowerCap) : 0 ≤ resetIdxOf cfg cap := by
  have hscan := foldl_range_index (f := fun (idx : ℤ) (i : ℕ) =>
    if (cap.profile i).minMv < cfg.vbusL ∨ (cap.profile i).maxMv < cfg.vbusL ∨
      (cap.profile i).minMv > cfg.vbusL ∨ (cap.profile i).maxMv > cfg.vbusL then idx
    else i) (fun idx i => by split <;> simp) cap.nr 0
  unfold resetIdxOf
  omega

theorem nextIdx_nonneg (better : ℤ → ℤ → Bool) (cap : PdPowerCap) {selected : ℤ}
    (h : 0 ≤ selected) : 0 ≤ nextIdx cfg better cap selected := by
  unfold nextIdx
  refine (foldl_range_index ?_ cap.nr selected).elim (fun heq => ?_) (fun hrange => hrange.1)
  · intro idx i
    repeat' split
    all_goals simp
  · rw [heq]
    exact h

theorem resetIdx_of_ne {cap : PdPowerCap} (h : idx ≠ -1) : resetIdx cfg cap idx = idx :=
  if_neg h

theorem resetIdx_nonneg (cap : PdPowerCap) (h : -1 ≤ idx) : 0 ≤ resetIdx cfg cap idx := by
  unfold resetIdx
  split
  · exact resetIdxOf_nonneg cfg cap
  · omega

end Table

/-- What is done with the algorithm. -/
inductive PdEvent where
  | start (r : PdReading)
  | stop (r : PdReading)
  | full (r : PdReading)
  | plugOut
  | setLimit (setting : LimitSetting)
  | isReady (r : PdReading)

section Step

variable (cfg : PdConfig)

/-- One operation. -/
def pdStep (b : PdBus) : PdEvent → PdBus
  | .start r => b.startAlgo cfg r
  | .stop r => b.stopAlgo cfg r
  | .full r => b.fullEvt cfg r
  | .plugOut => { b with pd := b.pd.plugoutReset }
  | .setLimit setting => { b with pd := b.pd.setSetting setting }
  | .isReady r => { b with pd := (b.pd.isAlgoReady cfg r).2 }

/-- The algorithm before its first request. -/
def PdBus.clearRequests (b : PdBus) : PdBus := { b with pd := { b.pd with requests := [] } }

/-- The indices before the first adapter. -/
def PdBus.forgetIndices (b : PdBus) : PdBus :=
  { b with pd := { b.pd with pdIdx := -1, pdResetIdx := -1, pdBoostIdx := 0, pdBuckIdx := 0 } }

/-- The requests of one operation. -/
def newRequests (b : PdBus) (e : PdEvent) : List PdRequest :=
  (pdStep cfg b.clearRequests e).pd.requests

/-- The first request of a sequence of operations. -/
def firstRequest (es : List PdEvent) (b : PdBus) : Option PdRequest :=
  (es.foldl (pdStep cfg) b.clearRequests).pd.requests.head?

/-- An operation requests profiles of the table that was read last. After a plug out, the first
request does not depend on the indices that are left, whatever is done next. -/
def PdStepGood (b : PdBus) (e : PdEvent) : Prop :=
  (∀ q ∈ newRequests cfg b e, 0 ≤ q.idx ∧ q.idx < q.nr) ∧
    (e = .plugOut → ∀ es, firstRequest cfg es (pdStep cfg b .plugOut) =
      firstRequest cfg es (pdStep cfg b .plugOut).forgetIndices)

end Step

section Condition

variable (cfg : PdConfig)

/-- If a profile is requested, it is one of the table. -/
def RequestOk (r : SetupReading) (cap : PdPowerCap) (pdIdx idx : ℤ) : Prop :=
  asks cfg r cap pdIdx idx = true → idx < cap.nr
  deriving Decidable

/-- A call starts the algorithm, or the algorithm runs already. -/
def MtkPd.starts (r : PdReading) (pd : MtkPd) : Bool :=
  pd.state.running ||
    (decide (pd.state = .hwReady ∧ r.adapter = .ready) && pd.unlimited cfg r.uisoc)

/-- The index that the algorithm takes is below the size of the table that it has just read. -/
def RunSetupOk (r : PdReading) (pd : MtkPd) : Prop :=
  let cap := pd.cap.read r.table
  cap.nr ≠ 0 → ∀ ibus ∈ r.ibus,
    if vbusDropped cfg r then
      let idx := resetIdx cfg cap pd.pdResetIdx
      let cap := cap.read r.resetTable
      RequestOk cfg r.resetSetup cap pd.pdIdx idx ∧ RequestOk cfg r.setup cap idx idx
    else if boosts cfg r ibus cap then RequestOk cfg r.setup cap pd.pdIdx pd.pdBoostIdx
    else if bucks cfg ibus cap pd.pdBuckIdx then RequestOk cfg r.setup cap pd.pdIdx pd.pdBuckIdx
    else RequestOk cfg r.setup cap pd.pdIdx cap.selectedIdx
  deriving Decidable

/-- The indices are those before the first adapter. -/
def MtkPd.NoIndices (pd : MtkPd) : Prop :=
  pd.pdIdx = -1 ∧ pd.pdResetIdx = -1 ∧ pd.pdBoostIdx = 0 ∧ pd.pdBuckIdx = 0
  deriving Decidable

/-- The condition on an operation. -/
def PdStepOk (b : PdBus) : PdEvent → Prop
  | .start r => b.pd.starts cfg r = true → RunSetupOk cfg r b.pd
  | .stop r => b.pd.state.running = true →
      RequestOk cfg r.resetSetup (b.pd.cap.read r.resetTable) b.pd.pdIdx b.pd.pdResetIdx
  | .plugOut => b.pd.state.running = true ∨ b.pd.state = .hwUninit ∨ b.pd.state = .hwFail ∨
      b.pd.NoIndices
  | .full _ | .setLimit _ | .isReady _ => True

instance (b : PdBus) : ∀ e, Decidable (PdStepOk cfg b e)
  | .start _ => inferInstanceAs (Decidable (_ → _))
  | .stop _ => inferInstanceAs (Decidable (_ → _))
  | .plugOut => inferInstanceAs (Decidable (_ ∨ _))
  | .full _ | .setLimit _ | .isReady _ => .isTrue trivial

end Condition

section Frame

variable (cfg : PdConfig)

theorem PdBus.setCharger_eq (r : PdReading) (b : PdBus) :
    ∃ input charging charging2, (b.setCharger cfg r).pd = { b.pd with
      inputCurrent1 := input, chargingCurrent1 := charging, chargingCurrent2 := charging2 } := by
  unfold setCharger scSetCharger dcsSetCharger
  dsimp only
  generalize limitedCurrent r.minChargingCurrent1 _ _ = charging1
  generalize limitedCurrent r.minChargingCurrent2 _ _ = charging2
  repeat' split
  all_goals exact ⟨_, _, _, rfl⟩

variable (r : SetupReading) (idx : ℤ)

/-- The indices are not negative once they are known, and they are all unknown together. While the
algorithm runs they are known. -/
structure MtkPd.IndexInv (pd : MtkPd) : Prop where
  boost : 0 ≤ pd.pdBoostIdx
  buck : 0 ≤ pd.pdBuckIdx
  reset : -1 ≤ pd.pdResetIdx
  unknown : pd.pdResetIdx = -1 → pd.NoIndices
  running : pd.state.running = true → pd.pdResetIdx ≠ -1

/-- A setup changes the index in use, the next ones and the requests. -/
theorem PdBus.setup_eq (b : PdBus) : ∃ boost buck,
    (0 ≤ b.pd.pdBoostIdx → 0 ≤ boost) ∧ (0 ≤ b.pd.pdBuckIdx → 0 ≤ buck) ∧
      (b.setup cfg r idx).pd = { b.pd with
        pdIdx := idx, pdBoostIdx := boost, pdBuckIdx := buck,
        requests := b.pd.requests ++
          if asks cfg r b.pd.cap b.pd.pdIdx idx then [⟨idx, b.pd.cap.nr⟩] else [] } := by
  unfold setup
  split
  · unfold request getIdx
    dsimp only
    split
    · exact ⟨0, 0, fun _ => Int.le_refl 0, fun _ => Int.le_refl 0, rfl⟩
    · have hnonneg : 0 ≤ idx := by omega
      exact ⟨boostIdxOf cfg b.pd.cap idx, buckIdxOf cfg b.pd.cap idx,
        fun _ => nextIdx_nonneg cfg _ _ hnonneg, fun _ => nextIdx_nonneg cfg _ _ hnonneg, rfl⟩
  · exact ⟨_, _, id, id, by rw [append_nil]⟩

/-- A setup asks for its index, or for nothing. -/
theorem PdBus.setup_requests (b : PdBus) :
    (b.setup cfg r idx).pd.requests =
      b.pd.requests ++ if asks cfg r b.pd.cap b.pd.pdIdx idx then [⟨idx, b.pd.cap.nr⟩] else [] := by
  obtain ⟨boost, buck, -, -, heq⟩ := setup_eq cfg r idx b
  rw [heq]

variable {b : PdBus}

theorem PdBus.setup_inv (hinv : b.pd.IndexInv) (hreset : b.pd.pdResetIdx ≠ -1) :
    (b.setup cfg r idx).pd.IndexInv := by
  obtain ⟨boost, buck, hboost, hbuck, heq⟩ := setup_eq cfg r idx b
  rw [heq]
  exact ⟨hboost hinv.boost, hbuck hinv.buck, hinv.reset,
    fun hunknown => absurd hunknown hreset, fun _ => hreset⟩

/-- The state once the table was read. -/
def PdBus.lookup (r : AdapterReading) (b : PdBus) : PdBus :=
  { b with pd := (b.pd.initTable r).getResetIdx cfg }

/-- The part of the invariant that does not depend on whether the algorithm runs. -/
def MtkPd.Bounds (pd : MtkPd) : Prop :=
  0 ≤ pd.pdBoostIdx ∧ 0 ≤ pd.pdBuckIdx ∧ -1 ≤ pd.pdResetIdx

theorem MtkPd.IndexInv.bounds {pd : MtkPd} (hinv : pd.IndexInv) : pd.Bounds :=
  ⟨hinv.boost, hinv.buck, hinv.reset⟩

variable (table : AdapterReading)

theorem PdBus.lookup_known (hreset : -1 ≤ b.pd.pdResetIdx) :
    0 ≤ (b.lookup cfg table).pd.pdResetIdx ∧ (b.lookup cfg table).pd.pdResetIdx ≠ -1 := by
  have hnonneg : 0 ≤ (b.lookup cfg table).pd.pdResetIdx := resetIdx_nonneg cfg _ hreset
  omega

theorem PdBus.lookup_inv (h : b.pd.Bounds) : (b.lookup cfg table).pd.IndexInv := by
  obtain ⟨hboost, hbuck, hreset⟩ := h
  obtain ⟨hnonneg, hknown⟩ := lookup_known cfg table hreset
  exact ⟨hboost, hbuck, by omega, fun hunknown => absurd hunknown hknown, fun _ => hknown⟩

theorem PdBus.pdcReset_pdResetIdx (b : PdBus) :
    (b.pdcReset cfg table r).pd.pdResetIdx = (b.lookup cfg table).pd.pdResetIdx := by
  obtain ⟨_, _, -, -, heq⟩ := setup_eq cfg r (b.lookup cfg table).pd.pdResetIdx (b.lookup cfg table)
  exact (congrArg pdResetIdx heq :)

/-- A reset leaves known indices. -/
theorem PdBus.pdcReset_inv (h : b.pd.Bounds) :
    (b.pdcReset cfg table r).pd.IndexInv ∧ (b.pdcReset cfg table r).pd.pdResetIdx ≠ -1 := by
  have hknown := (lookup_known cfg table h.2.2).2
  rw [pdcReset_pdResetIdx]
  exact ⟨setup_inv cfg r _ (lookup_inv cfg table h) hknown, hknown⟩

theorem PdBus.pdcReset_eq (hknown : b.pd.pdResetIdx ≠ -1) :
    b.pdcReset cfg table r = (b.lookup cfg table).setup cfg r b.pd.pdResetIdx := by
  have hkeep : (b.lookup cfg table).pd.pdResetIdx = b.pd.pdResetIdx := resetIdx_of_ne cfg hknown
  rw [← hkeep]
  rfl

end Frame

section Requests

variable (cfg : PdConfig)

/-- A request is for a profile of the table. -/
def PdRequest.InTable (q : PdRequest) : Prop := 0 ≤ q.idx ∧ q.idx < q.nr

/-- The requests are for profiles of the tables. -/
def MtkPd.RequestsOk (pd : MtkPd) : Prop := ∀ q ∈ pd.requests, q.InTable

/-- A setup keeps the requests right exactly if its own is. -/
theorem PdBus.setup_requestsOk (r : SetupReading) (hidx : 0 ≤ idx) (b : PdBus) :
    (b.setup cfg r idx).pd.RequestsOk ↔
      b.pd.RequestsOk ∧ RequestOk cfg r b.pd.cap b.pd.pdIdx idx := by
  unfold RequestsOk RequestOk
  rw [setup_requests, forall_mem_append]
  apply and_congr_right
  intro _
  split
  · rename_i hasks
    simp [PdRequest.InTable, hasks, hidx]
  · rename_i hasks
    simp [hasks]

theorem PdPowerCap.selectedIdx_nonneg (cap : PdPowerCap) : 0 ≤ cap.selectedIdx := by
  unfold PdPowerCap.selectedIdx
  split <;> omega

theorem MtkPd.newIdx_nonneg (r : PdReading) (ibus : ℤ) {pd : MtkPd} (hinv : pd.IndexInv) :
    0 ≤ pd.newIdx cfg r ibus := by
  unfold newIdx
  repeat' split
  · exact hinv.boost
  · exact hinv.buck
  · exact pd.cap.selectedIdx_nonneg

variable {b : PdBus}

variable (r : PdReading)

theorem PdBus.applySetting_some (hidx : 0 ≤ idx) (b : PdBus) :
    applySetting cfg r (some idx, b) =
      { b with pd := b.pd.limitInput idx }.setup cfg r.setup idx := by
  unfold applySetting
  dsimp only
  rw [if_pos (by omega)]

theorem PdBus.applySetting_requestsOk (hidx : 0 ≤ idx) (b : PdBus) :
    (applySetting cfg r (some idx, b)).pd.RequestsOk ↔
      b.pd.RequestsOk ∧ RequestOk cfg r.setup b.pd.cap b.pd.pdIdx idx := by
  rw [applySetting_some cfg r hidx]
  exact setup_requestsOk cfg r.setup hidx { b with pd := b.pd.limitInput idx }

/-- What the choice of a profile can come to. -/
theorem PdBus.getSetting_cases (hreset : -1 ≤ b.pd.pdResetIdx) : let b1 := b.lookup cfg r.table
    ((b1.pd.cap.nr = 0 ∨ r.ibus = none) ∧ b.getSetting cfg r = (none, b1)) ∨
      ∃ ibus, b1.pd.cap.nr ≠ 0 ∧ r.ibus = some ibus ∧
        (vbusDropped cfg r = true ∧ b.getSetting cfg r =
            (some b1.pd.pdResetIdx, b1.pdcReset cfg r.resetTable r.resetSetup) ∨
          vbusDropped cfg r = false ∧
            b.getSetting cfg r = (some (b1.pd.newIdx cfg r ibus), b1)) := by
  intro b1
  by_cases hnr : b1.pd.cap.nr = 0
  · exact Or.inl ⟨Or.inl hnr, if_pos hnr⟩
  · have hstep : b.getSetting cfg r = _ := if_neg hnr
    rw [hstep]
    cases r.ibus with
    | none => exact Or.inl ⟨Or.inr rfl, rfl⟩
    | some ibus =>
      refine Or.inr ⟨ibus, hnr, rfl, ?_⟩
      cases vbusDropped cfg r with
      | false => exact Or.inr ⟨rfl, rfl⟩
      | true =>
        have hkeep : (b1.lookup cfg r.resetTable).pd.pdResetIdx = b1.pd.pdResetIdx :=
          resetIdx_of_ne cfg (lookup_known cfg r.table hreset).2
        have hset : (b1.pdcReset cfg r.resetTable r.resetSetup).pd.pdResetIdx = _ :=
          (pdcReset_pdResetIdx ..).trans hkeep
        exact Or.inl ⟨rfl, by rw [← hset]; rfl⟩

/-- A run keeps the requests right exactly if its setup does. -/
theorem PdBus.pdRun_requestsOk (h : b.pd.Bounds) :
    (b.pdRun cfg r).pd.RequestsOk ↔ b.pd.RequestsOk ∧ RunSetupOk cfg r b.pd := by
  have hlookup := lookup_inv cfg r.table h
  obtain ⟨_, _, _, heq⟩ := setCharger_eq cfg r (applySetting cfg r (b.getSetting cfg r))
  have hkeep : (b.pdRun cfg r).pd.RequestsOk ↔
      (applySetting cfg r (b.getSetting cfg r)).pd.RequestsOk :=
    by rw [pdRun, heq]; exact Iff.rfl
  rw [hkeep]
  unfold RunSetupOk
  dsimp only
  obtain ⟨hnone, hset⟩ | ⟨ibus, hnr, hibus, ⟨hdropped, hset⟩ | ⟨hdropped, hset⟩⟩ :=
    getSetting_cases cfg r h.2.2
  · rw [hset]
    refine (and_iff_left ?_).symm
    intro hnr ibus hibus
    rcases hnone with hzero | hnone
    · exact absurd hzero hnr
    · rw [hnone] at hibus
      cases hibus
  · obtain ⟨hnonneg, hknown⟩ := lookup_known cfg r.table h.2.2
    obtain ⟨_, _, -, -, hsetup⟩ := setup_eq cfg r.resetSetup (b.lookup cfg r.table).pd.pdResetIdx
      ((b.lookup cfg r.table).lookup cfg r.resetTable)
    rw [hset, applySetting_requestsOk cfg r hnonneg, pdcReset_eq cfg _ _ hknown,
      setup_requestsOk cfg _ hnonneg, hsetup]
    have hnr' : (b.pd.cap.read r.table).nr ≠ 0 := hnr
    simp only [hibus, hdropped, if_true, mem_def, some.injEq, forall_eq', hnr', ne_eq,
      not_false_eq_true, forall_const, and_assoc]
    rfl
  · rw [hset, applySetting_requestsOk cfg r (newIdx_nonneg cfg r ibus hlookup)]
    have hnr' : (b.pd.cap.read r.table).nr ≠ 0 := hnr
    simp only [hibus, hdropped, Bool.false_eq_true, if_false, mem_def, some.injEq,
      forall_eq', hnr', ne_eq, not_false_eq_true, forall_const]
    apply and_congr_right
    intro _
    dsimp only [lookup, newIdx, limitInput, getResetIdx, initTable]
    repeat' split
    all_goals exact Iff.rfl

theorem PdBus.pdRun_inv (h : b.pd.Bounds) : (b.pdRun cfg r).pd.IndexInv := by
  have hlookup := lookup_inv cfg r.table h
  obtain ⟨hnonneg, hknown⟩ := lookup_known cfg r.table h.2.2
  obtain ⟨_, _, _, heq⟩ := setCharger_eq cfg r (applySetting cfg r (b.getSetting cfg r))
  rw [pdRun, heq]
  suffices hinv : (applySetting cfg r (b.getSetting cfg r)).pd.IndexInv from { hinv with }
  obtain ⟨-, hset⟩ | ⟨ibus, -, -, ⟨-, hset⟩ | ⟨-, hset⟩⟩ := getSetting_cases cfg r h.2.2
  · rw [hset]
    exact { hlookup with }
  · obtain ⟨hsecond, hknown'⟩ := pdcReset_inv cfg r.resetSetup r.resetTable hlookup.bounds
    rw [hset, applySetting_some cfg r hnonneg]
    exact setup_inv cfg _ _ { hsecond with } hknown'
  · rw [hset, applySetting_some cfg r (newIdx_nonneg cfg r ibus hlookup)]
    exact setup_inv cfg _ _ { hlookup with } hknown

theorem MtkPd.IndexInv.withState {pd : MtkPd} (hinv : pd.IndexInv) {state : PdState}
    (hrunning : state.running = true → pd.state.running = true) : (pd.withState state).IndexInv :=
  { hinv with running := fun h => hinv.running (hrunning h) }

/-- A call runs the algorithm, or only changes its state. -/
theorem PdBus.startAlgo_cases (b : PdBus) : ∃ state,
    b.pd.starts cfg r = true ∧
        b.startAlgo cfg r = { b with pd := b.pd.withState state }.pdRun cfg r ∨
      b.pd.starts cfg r = false ∧ (state.running = true → b.pd.state.running = true) ∧
        b.startAlgo cfg r = { b with pd := b.pd.withState state } := by
  unfold startAlgo starts
  cases hstate : b.pd.state with
  | hwUninit | hwFail | taNotSupport =>
    refine ⟨b.pd.state, Or.inr ⟨by simp [running], by simp [hstate], rfl⟩⟩
  | hwReady =>
    cases hadapter : r.adapter with
    | notSupport => exact ⟨.taNotSupport, Or.inr ⟨by simp [running], id, rfl⟩⟩
    | checking => exact ⟨b.pd.state, Or.inr ⟨by simp [running], by simp [hstate], rfl⟩⟩
    | ready =>
      cases hfree : b.pd.unlimited cfg r.uisoc with
      | false => exact ⟨b.pd.state, Or.inr ⟨by simp [running], by simp [hstate], rfl⟩⟩
      | true => exact ⟨.run, Or.inl ⟨by simp, rfl⟩⟩
  | run | tuning | postcc => exact ⟨b.pd.state, Or.inl ⟨by simp [running], rfl⟩⟩

/-- Every step keeps the indices in range. -/
theorem pdStep_inv (hinv : b.pd.IndexInv) (e : PdEvent) : (pdStep cfg b e).pd.IndexInv := by
  cases e with
  | start r =>
    obtain ⟨state, ⟨-, heq⟩ | ⟨-, hrunning, heq⟩⟩ := startAlgo_cases cfg r b
    · rw [pdStep, heq]
      exact pdRun_inv cfg r hinv.bounds
    · rw [pdStep, heq]
      exact hinv.withState hrunning
  | stop r =>
    unfold pdStep stopAlgo
    dsimp only
    split
    · have hstop := (pdcReset_inv cfg r.resetSetup r.resetTable hinv.bounds).1
      exact hstop.withState fun h => by cases h
    · exact hinv
  | full r =>
    unfold pdStep fullEvt
    dsimp only
    split
    · rename_i hrunning
      repeat' split
      all_goals
        exact { hinv with running := fun _ => hinv.running hrunning }
    · exact hinv
  | plugOut =>
    unfold pdStep plugoutReset
    dsimp only
    split
    · exact ⟨Int.le_refl 0, Int.le_refl 0, Int.le_refl (-1), fun _ => ⟨rfl, rfl, rfl, rfl⟩,
        fun h => by cases h⟩
    · split
      · exact hinv.withState fun h => by cases h
      · exact hinv
  | setLimit setting => exact { hinv with }
  | isReady r =>
    unfold pdStep isAlgoReady
    dsimp only
    split
    iterate 2 exact hinv
    · split
      · exact hinv
      · exact hinv.withState fun h => by cases h
      · exact hinv
    iterate 4 exact hinv

/-- A start keeps the requests right exactly if its run does. -/
theorem PdBus.startAlgo_requestsOk (hinv : b.pd.IndexInv) :
    (b.startAlgo cfg r).pd.RequestsOk ↔
      b.pd.RequestsOk ∧ (b.pd.starts cfg r = true → RunSetupOk cfg r b.pd) := by
  obtain ⟨state, ⟨hstarts, heq⟩ | ⟨hstarts, -, heq⟩⟩ := startAlgo_cases cfg r b
  · rw [heq, imp_iff_right hstarts]
    exact pdRun_requestsOk (b := { b with pd := b.pd.withState state }) cfg r hinv.bounds
  · rw [heq, hstarts]
    simp [withState, RequestsOk]

theorem PdBus.stopAlgo_requestsOk (hinv : b.pd.IndexInv) :
    (b.stopAlgo cfg r).pd.RequestsOk ↔ b.pd.RequestsOk ∧ (b.pd.state.running = true →
      RequestOk cfg r.resetSetup (b.pd.cap.read r.resetTable) b.pd.pdIdx b.pd.pdResetIdx) := by
  unfold stopAlgo
  cases hrun : b.pd.state.running with
  | false => simp
  | true =>
    have hknown := hinv.running hrun
    have hreset := hinv.reset
    have hnonneg : 0 ≤ b.pd.pdResetIdx := by omega
    have hsetup := setup_requestsOk cfg r.resetSetup hnonneg (b.lookup cfg r.resetTable)
    rw [if_pos rfl]
    simp only [forall_const]
    rw [pdcReset_eq cfg _ _ hknown]
    exact hsetup

end Requests

section PlugOut

variable (cfg : PdConfig)
variable {b : PdBus}

section

variable (hdead : b.pd.state = .hwUninit ∨ b.pd.state = .hwFail) (es : List PdEvent)
include hdead es

theorem foldl_pdStep_requests_of_dead : (es.foldl (pdStep cfg) b).pd.requests = b.pd.requests := by
  induction es generalizing b with
  | nil => rfl
  | cons e es ih =>
    have hstep : (pdStep cfg b e).pd.state = b.pd.state ∧
        (pdStep cfg b e).pd.requests = b.pd.requests := by
      cases e <;> rcases hdead with hstate | hstate <;>
        simp [pdStep, startAlgo, stopAlgo, fullEvt, plugoutReset,
          setSetting, isAlgoReady, running, hstate]
    rw [foldl_cons, ih (by rwa [hstep.1]), hstep.2]

theorem firstRequest_of_dead : firstRequest cfg es b = none := by
  have hclear : b.clearRequests.pd.state = .hwUninit ∨ b.clearRequests.pd.state = .hwFail := hdead
  unfold firstRequest
  rw [foldl_pdStep_requests_of_dead cfg hclear]
  rfl

end

theorem PdBus.forgetIndices_eq (h : b.pd.NoIndices) : b.forgetIndices = b := by
  rcases b with ⟨pd, regs⟩
  cases pd
  dsimp only [NoIndices] at h
  obtain ⟨rfl, rfl, rfl, rfl⟩ := h
  rfl

theorem MtkPd.plugoutReset_noIndices {pd : MtkPd} (h : pd.state.running = true ∨ pd.NoIndices) :
    pd.plugoutReset.NoIndices := by
  unfold plugoutReset
  split
  · exact ⟨rfl, rfl, rfl, rfl⟩
  · rename_i hrun
    have hnone := h.resolve_left hrun
    split <;> exact hnone

/-- No limits. -/
def noLimits : LimitSetting :=
  { cv := 0, inputCurrentLimit1 := -1, inputCurrentLimit2 := -1, chargingCurrentLimit1 := -1,
    chargingCurrentLimit2 := -1 }

/-- A table of `nr` equal profiles. -/
def constantCap (nr : ℕ) (p : PdProfile) : PdPowerCap :=
  { selectedCapIdx := 0, nr, profile := fun _ => p }

theorem resetIdxOf_constantCap (nr : ℕ) :
    resetIdxOf cfg (constantCap (nr + 1) ⟨cfg.vbusL, cfg.vbusL, 0, 0⟩) = nr := by
  unfold resetIdxOf constantCap
  dsimp only
  rw [range_succ, foldl_append]
  simp

/-- A setup that always requests a profile of five volts. -/
def lowSetup : SetupReading :=
  { mivr1 := 0, chip2Enabled := false, mivr2 := 0, capAccepted := true }

/-- The voltage drops while an adapter with `nr` equal profiles is in use. -/
def droppedReading (nr : ℕ) : PdReading where
  adapter := .ready
  uisoc := cfg.pdStopBatterySoc - 1
  table := ⟨.ready, constantCap nr ⟨cfg.vbusL, cfg.vbusL, 0, 0⟩⟩
  ibus := some 0
  mivrState1 := true
  mivr1 := 5000000
  chip2Enabled := false
  mivrState2 := false
  mivr2 := 0
  vbus := 0
  resetTable := ⟨.ready, constantCap nr ⟨5000, 5000, 0, 0⟩⟩
  resetSetup := lowSetup
  setup := lowSetup
  minChargingCurrent1 := none
  minInputCurrent1 := none
  minChargingCurrent2 := none
  charger2Enabled := false
  ichg2 := 0

theorem PdBus.pdRun_dropped (nr : ℕ) (hnone : b.pd.requests = []) (hreset : -1 ≤ b.pd.pdResetIdx) :
    (b.pdRun cfg (droppedReading cfg (nr + 1))).pd.requests.head? =
      some ⟨if b.pd.pdResetIdx = -1 then nr else b.pd.pdResetIdx, nr + 1⟩ := by
  obtain ⟨r, hr⟩ : ∃ r, r = droppedReading cfg (nr + 1) := ⟨_, rfl⟩
  have hdropped : vbusDropped cfg r = true := by
    unfold vbusDropped
    rw [hr, Bool.or_eq_true]
    left
    show (true && decide (u32 0 < u32 (((5000000 / 1000 : ℕ) : ℤ) - 500))) = true
    decide
  have hidx : (b.lookup cfg r.table).pd.pdResetIdx =
      if b.pd.pdResetIdx = -1 then (nr : ℤ) else b.pd.pdResetIdx := by
    rw [← resetIdxOf_constantCap cfg nr, hr]
    rfl
  obtain ⟨hnonneg, hknown⟩ := lookup_known cfg r.table hreset
  rw [← hr, ← hidx]
  obtain ⟨_, _, _, heq⟩ := setCharger_eq cfg r (applySetting cfg r (b.getSetting cfg r))
  rw [pdRun, heq]
  change (applySetting cfg r (b.getSetting cfg r)).pd.requests.head? = _
  obtain ⟨hno | hno, -⟩ | ⟨ibus, -, -, ⟨-, hset⟩ | ⟨hno, -⟩⟩ := getSetting_cases cfg r hreset
  · rw [hr] at hno
    exact absurd hno (Nat.succ_ne_zero nr)
  · rw [hr] at hno
    cases hno
  · rw [hset, applySetting_some cfg _ hnonneg, setup_requests]
    change ((pdcReset cfg _ _ _).pd.requests ++ _).head? = _
    rw [pdcReset_eq cfg _ _ hknown, setup_requests]
    change ((b.pd.requests ++ _) ++ _).head? = _
    rw [hnone]
    have hforced : ∀ pdIdx idx, asks cfg r.resetSetup
        ((b.lookup cfg r.table).lookup cfg r.resetTable).pd.cap pdIdx idx = true := by
      intro pdIdx idx
      unfold asks forceUpdate
      rw [hr, Bool.or_eq_true, Bool.or_eq_true]
      right
      left
      show decide (u32 (5000 - ((0 / 1000 : ℕ) : ℤ)) > pdVbusIrDropThreshold) = true
      decide
    rw [if_pos (hforced _ _), hr]
    rfl
  · rw [hdropped] at hno
    cases hno

/-- The first request after the table has got shorter. -/
theorem firstRequest_dropped (nr : ℕ) (hstate : b.pd.state = .hwReady)
    (hreset : -1 ≤ b.pd.pdResetIdx) :
    firstRequest cfg [.setLimit noLimits, .start (droppedReading cfg (nr + 1))] b =
      some ⟨if b.pd.pdResetIdx = -1 then nr else b.pd.pdResetIdx, nr + 1⟩ := by
  have hfree : (pdStep cfg b.clearRequests (.setLimit noLimits)).pd.starts cfg
      (droppedReading cfg (nr + 1)) = true := by
    have hsoc : cfg.pdStopBatterySoc - 1 < cfg.pdStopBatterySoc := by omega
    simp [starts, unlimited, pdStep, setSetting, noLimits, droppedReading, clearRequests, hstate,
      hsoc]
  unfold firstRequest
  rw [foldl_cons, foldl_cons, foldl_nil]
  obtain ⟨state, ⟨-, heq⟩ | ⟨hno, -⟩⟩ := startAlgo_cases cfg (droppedReading cfg (nr + 1))
    (pdStep cfg b.clearRequests (.setLimit noLimits))
  · rw [pdStep, heq]
    exact pdRun_dropped cfg nr rfl hreset
  · rw [hfree] at hno
    cases hno

/-- What follows a plug-out is independent of the past exactly if the indices are reset. -/
theorem plugOut_independent_iff (hinv : b.pd.IndexInv) :
    (∀ es, firstRequest cfg es (pdStep cfg b .plugOut) =
      firstRequest cfg es (pdStep cfg b .plugOut).forgetIndices) ↔ PdStepOk cfg b .plugOut := by
  constructor
  · intro hsame
    refine Decidable.byContradiction fun hno => ?_
    unfold PdStepOk at hno
    simp only [not_or] at hno
    obtain ⟨hrun, huninit, hfail, hindices⟩ := hno
    have hknown : b.pd.pdResetIdx ≠ -1 := fun hunknown => hindices (hinv.unknown hunknown)
    have hreset := hinv.reset
    -- the algorithm is ready after the plug out, with the old index to reset to
    have hout : (pdStep cfg b .plugOut).pd.state = .hwReady ∧
        (pdStep cfg b .plugOut).pd.pdResetIdx = b.pd.pdResetIdx := by
      unfold pdStep plugoutReset
      dsimp only
      rw [if_neg hrun]
      cases hstate : b.pd.state <;> simp_all [withState, running]
    have hreset' : -1 ≤ (pdStep cfg b .plugOut).pd.pdResetIdx := by omega
    have hdiffers (nr : ℕ) : b.pd.pdResetIdx = nr := by
      have heq := hsame [.setLimit noLimits, .start (droppedReading cfg (nr + 1))]
      have hforgot : firstRequest cfg [.setLimit noLimits, .start (droppedReading cfg (nr + 1))]
          (pdStep cfg b .plugOut).forgetIndices = some ⟨nr, nr + 1⟩ :=
        firstRequest_dropped cfg nr (b := (pdStep cfg b .plugOut).forgetIndices) hout.1
          (Int.le_refl (-1))
      rw [firstRequest_dropped cfg nr hout.1 hreset', hforgot, hout.2, if_neg hknown] at heq
      simpa using heq
    have h0 := hdiffers 0
    have h1 := hdiffers 1
    omega
  · intro hok es
    have hkeep (hdead : b.pd.state = .hwUninit ∨ b.pd.state = .hwFail) :
        (pdStep cfg b .plugOut).pd.state = .hwUninit ∨
          (pdStep cfg b .plugOut).pd.state = .hwFail := by
      rcases hdead with hstate | hstate <;>
        simp [pdStep, plugoutReset, hstate, running]
    unfold PdStepOk at hok
    rw [← or_assoc (a := b.pd.state = .hwUninit)] at hok
    rcases hok with hrun | hdead | hindices
    · rw [forgetIndices_eq (plugoutReset_noIndices (Or.inl hrun))]
    · rw [firstRequest_of_dead cfg (hkeep hdead)]
      exact (firstRequest_of_dead (b := forgetIndices _) cfg (hkeep hdead) es).symm
    · rw [forgetIndices_eq (plugoutReset_noIndices (Or.inr hindices))]

end PlugOut

section Runs

variable (cfg : PdConfig)

/-- A step is good exactly under its condition. -/
theorem pdStepGood_iff (hinv : b.pd.IndexInv) (e : PdEvent) :
    PdStepGood cfg b e ↔ PdStepOk cfg b e := by
  have hinv' : b.clearRequests.pd.IndexInv :=
    { hinv with }
  have hnone : b.clearRequests.pd.RequestsOk := by
    intro q hq
    cases hq
  have hquiet (e : PdEvent) (hquiet : newRequests cfg b e = []) :
      ∀ q ∈ newRequests cfg b e, 0 ≤ q.idx ∧ q.idx < q.nr := by
    rw [hquiet]
    intro q hq
    cases hq
  unfold PdStepGood
  cases e with
  | start r =>
    have hstart := startAlgo_requestsOk cfg r hinv'
    rw [and_iff_right hnone] at hstart
    simp only [reduceCtorEq, false_imp_iff, and_true]
    exact hstart
  | stop r =>
    have hstop := stopAlgo_requestsOk cfg r hinv'
    rw [and_iff_right hnone] at hstop
    simp only [reduceCtorEq, false_imp_iff, and_true]
    exact hstop
  | plugOut =>
    have hrequests : newRequests cfg b .plugOut = [] := by
      simp only [newRequests, pdStep, plugoutReset]
      repeat' split
      all_goals rfl
    rw [and_iff_right (hquiet _ hrequests)]
    simp only [true_imp_iff]
    exact plugOut_independent_iff cfg hinv
  | full r | setLimit setting | isReady r =>
    refine iff_of_true ⟨hquiet _ ?_, fun h => by cases h⟩ trivial
    simp only [newRequests, pdStep, fullEvt, setSetting, isAlgoReady]
    repeat' split
    all_goals rfl

/-- The algorithm after `_pd_init_algo`: it does not run, and it has no indices. -/
def MtkPd.Initial (pd : MtkPd) : Prop :=
  pd.NoIndices ∧ pd.state.running = false
  deriving Decidable

theorem MtkPd.Initial.inv {pd : MtkPd} (h : pd.Initial) : pd.IndexInv := by
  obtain ⟨⟨hidx, hreset, hboost, hbuck⟩, hrunning⟩ := h
  constructor
  · omega
  · omega
  · omega
  · exact fun _ => ⟨hidx, hreset, hboost, hbuck⟩
  · rw [hrunning]
    exact fun h => by cases h

/-- In every sequence of operations, all requests are for profiles of the table that was read last,
and the first request after each plug out does not depend on the indices that are left, exactly if
every operation meets its condition: an index that is used is below the size of the table, and a
plug out finds the algorithm running, not initialised, or without indices. -/
theorem pdStepGood_iff_runOk {init : PdBus} (hinit : init.pd.Initial) (es : List PdEvent) :
    (∀ pre e post, es = pre ++ e :: post → PdStepGood cfg (pre.foldl (pdStep cfg) init) e) ↔
      RunOk (pdStep cfg) (PdStepOk cfg) init es := by
  rw [← runOk_iff_forall_split]
  exact runOk_congr (fun b => b.pd.IndexInv) (fun b e hinv => pdStepGood_iff cfg hinv e)
    (fun b e hinv _ => pdStep_inv cfg hinv e) hinit.inv es

end Runs

/-- The algorithm moves to nine volts. -/
def useNineVolt : List PdEvent :=
  [.start (drawnInFull nineVoltCap), .setLimit noLimits, .start (drawnInFull nineVoltCap)]

/-- The adapter is replaced by one with five volts only. -/
def replaceAdapter : List PdEvent :=
  [.plugOut, .setLimit noLimits, .start (drawnInFull fiveVoltCap)]

/-- If the adapter is replaced while the algorithm runs, all requests are for profiles of the
tables. -/
theorem pdStepGood_replaced :
    initialPd.pd.Initial ∧
      ∀ pre e post, useNineVolt ++ replaceAdapter = pre ++ e :: post →
        PdStepGood defaultPdConfig (pre.foldl (pdStep defaultPdConfig) initialPd) e :=
  ⟨by decide, (pdStepGood_iff_runOk defaultPdConfig (by decide) _).mpr (by decide +kernel)⟩

/-- The battery is full, and then the nine volt adapter is unplugged. -/
def fullThenUnplugged : List PdEvent :=
  useNineVolt ++ [.full (drawnInFull nineVoltCap), .plugOut, .setLimit noLimits]

theorem newRequests_fullThenUnplugged :
    newRequests defaultPdConfig (fullThenUnplugged.foldl (pdStep defaultPdConfig) initialPd)
      (.start (drawnInFull fiveVoltCap)) = [⟨1, 1⟩] := by
  decide +kernel

/-- If the battery is full before the adapter is replaced, the nine volt profile is requested from
the new adapter, which does not have it. -/
theorem not_pdStepGood_fullThenUnplugged :
    ¬∀ pre e post, fullThenUnplugged ++ [.start (drawnInFull fiveVoltCap)] = pre ++ e :: post →
      PdStepGood defaultPdConfig (pre.foldl (pdStep defaultPdConfig) initialPd) e := by
  intro hall
  have hlast := (hall fullThenUnplugged (.start (drawnInFull fiveVoltCap)) [] rfl).1
  rw [newRequests_fullThenUnplugged] at hlast
  have hbound := (hlast ⟨1, 1⟩ (mem_singleton.mpr rfl)).2
  exact absurd hbound (by decide)

end Mt8169.Power
