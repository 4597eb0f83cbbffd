import Mathlib.Tactic.SplitIfs
import Mt8169.Lib.BitMask
import Mt8169.Lib.Runs

/-!
# The timers of the Type-C port controller

Every timer has a bit in `timer_enable_mask`, set while the timer is armed, and a bit in
`timer_tick`, set from its expiry until that has been handled. The counter `suspend_pending` keeps
the device awake while it is positive. Enabling a timer adjusts it by comparing the mask before the
call with the mask after it, and takes equal masks for a timer that went away: a timer that is armed
already loses a count.
-/

namespace Mt8169.Typec

open List

/-- The division of the timer ids: the policy engine's timers come first, the last group are the
Type-C debounce timers, of which only one is to be armed, and the Try timers are before them. The
masks have 64 bits. -/
structure TimerLayout where
  /-- `PD_PE_TIMER_END_ID`. -/
  peEnd : ℕ
  /-- `TYPEC_TRY_TIMER_START_ID`. -/
  tryStart : ℕ
  /-- `TYPEC_TIMER_START_ID`. -/
  typecStart : ℕ
  /-- `PD_TIMER_NR`. -/
  nr : ℕ
  peEnd_le_tryStart : peEnd ≤ tryStart
  tryStart_le_typecStart : tryStart ≤ typecStart
  typecStart_le_nr : typecStart ≤ nr
  nr_le : nr ≤ 64

/-- The timers of the driver's default configuration. -/
def defaultLayout : TimerLayout where
  peEnd := 37
  tryStart := 50
  typecStart := 52
  nr := 59
  peEnd_le_tryStart := by decide
  tryStart_le_typecStart := by decide
  typecStart_le_nr := by decide
  nr_le := by decide

/-- The fields of the device that the timers use. -/
structure TimerState where
  timerEnableMask : BitVec 64
  timerTick : BitVec 64
  suspendPending : ℕ
  /-- The wake-up alarm is running. -/
  wakeUpTimer : Bool
  deriving DecidableEq, Repr

namespace TimerState

/-- No timer is enabled. -/
def start (tick : BitVec 64) (wakeUp : Bool) : TimerState where
  timerEnableMask := 0
  timerTick := tick
  suspendPending := 0
  wakeUpTimer := wakeUp

variable (l : TimerLayout) (s : TimerState)

/-- The timer is armed. -/
def Armed (id : ℕ) : Prop := s.timerEnableMask.getLsbD id = true
  deriving Decidable

/-- An armed timer that goes away takes its pending expiry with it. -/
def clearTimerEnableMask (nr : ℕ) : TimerState :=
  { s with
    timerEnableMask := BitMask.erase s.timerEnableMask nr
    timerTick := BitMask.erase s.timerTick nr }

def setTimerEnableMask (nr : ℕ) : TimerState :=
  { s with timerEnableMask := BitMask.insert s.timerEnableMask nr }

def incPending : TimerState := { s with suspendPending := s.suspendPending + 1 }

/-- The counter stops at zero. -/
def decIfPositive : TimerState := { s with suspendPending := s.suspendPending - 1 }

/-- One timer of a range: it is cancelled if it was armed when the range was looked at. -/
def resetIn (mask : BitVec 64) (s : TimerState) (i : ℕ) : TimerState :=
  if mask.getLsbD i then (s.clearTimerEnableMask i).decIfPositive else s

def resetTimerRange (start stop : ℕ) : TimerState :=
  let s' := (List.range' start (stop - start)).foldl (resetIn s.timerEnableMask) s
  if stop = l.nr then { s' with wakeUpTimer := false } else s'

/-- Arm a timer. The result of comparing the masks decides what happens to the counter. -/
def enableTimer (timerId : ℕ) : TimerState :=
  let maskPrev := s.timerEnableMask
  if l.nr ≤ timerId then s
  else
    let s := if l.typecStart ≤ timerId then resetTimerRange l s l.typecStart l.nr else s
    let s := s.setTimerEnableMask timerId
    if maskPrev ^^^ s.timerEnableMask ≠ 0#64 then s.incPending else s.decIfPositive

def disableTimer (timerId : ℕ) : TimerState :=
  let mask := s.timerEnableMask
  if l.nr ≤ timerId then s
  else if mask.getLsbD timerId then (s.clearTimerEnableMask timerId).decIfPositive
  else s

def restartTimer (timerId : ℕ) : TimerState :=
  let mask := s.timerEnableMask
  let s := if mask.getLsbD timerId then disableTimer l s timerId else s
  enableTimer l s timerId

def resetPeTimer : TimerState := resetTimerRange l s 0 l.peEnd

def resetTypecDebounceTimer : TimerState :=
  resetTimerRange l s l.typecStart l.nr

def resetTypecTryTimer : TimerState :=
  resetTimerRange l s l.tryStart l.typecStart

end TimerState

/-- The calls of the timer interface. -/
inductive TimerCall where
  | enable (timerId : ℕ)
  | restart (timerId : ℕ)
  | disable (timerId : ℕ)
  | resetPe
  | resetTypecDebounce
  | resetTypecTry
  deriving DecidableEq, Repr

namespace TimerState

variable (l : TimerLayout) (s : TimerState)

/-- One call. -/
def call : TimerCall → TimerState
  | .enable timerId => s.enableTimer l timerId
  | .restart timerId => s.restartTimer l timerId
  | .disable timerId => s.disableTimer l timerId
  | .resetPe => s.resetPeTimer l
  | .resetTypecDebounce => s.resetTypecDebounceTimer l
  | .resetTypecTry => s.resetTypecTryTimer l

/-- The counter is the number of armed timers. -/
def Balanced : Prop := s.suspendPending = BitMask.count s.timerEnableMask
  deriving Decidable

/-- At most one of the Type-C debounce timers is armed. -/
def OneDebounce : Prop :=
  ∀ i j, l.typecStart ≤ i → l.typecStart ≤ j → s.Armed i → s.Armed j → i = j

/-- The call does not enable a timer that is armed already. -/
def Fresh : TimerCall → Prop
  | .enable timerId => timerId < l.nr → ¬ s.Armed timerId
  | _ => True

/-- What all runs keep: there are no timers beyond the last id, and at most one debounce timer. -/
structure Proper (l : TimerLayout) (s : TimerState) : Prop where
  lt_nr : ∀ i, s.Armed i → i < l.nr
  oneDebounce : s.OneDebounce l

variable {l : TimerLayout} {s : TimerState} {i timerId : ℕ}

@[simp]
theorem armed_start (tick : BitVec 64) (wakeUp : Bool) (i : ℕ) : ¬ (start tick wakeUp).Armed i := by
  simp [Armed, start]

@[simp]
theorem armed_clearTimerEnableMask (i j : ℕ) :
    (s.clearTimerEnableMask i).Armed j ↔ s.Armed j ∧ j ≠ i := by
  simp [Armed, clearTimerEnableMask, BitMask.getLsbD_erase]

theorem armed_setTimerEnableMask (hi : i < 64) (j : ℕ) :
    (s.setTimerEnableMask i).Armed j ↔ s.Armed j ∨ j = i := by
  simp [Armed, setTimerEnableMask, BitMask.getLsbD_insert _ hi]

@[simp]
theorem armed_incPending (i : ℕ) : s.incPending.Armed i ↔ s.Armed i := Iff.rfl

@[simp]
theorem armed_decIfPositive (i : ℕ) : s.decIfPositive.Armed i ↔ s.Armed i := Iff.rfl

theorem Proper.mono {s' : TimerState} (h : s.Proper l) (hsub : ∀ i, s'.Armed i → s.Armed i) :
    s'.Proper l where
  lt_nr i hi := h.lt_nr i (hsub i hi)
  oneDebounce i j hi hj hai haj := h.oneDebounce i j hi hj (hsub i hai) (hsub j haj)

theorem Balanced.clear (h : s.Balanced) (hi : s.Armed i) :
    ((s.clearTimerEnableMask i).decIfPositive).Balanced := by
  have hcount := BitMask.count_erase hi
  simp only [Balanced, decIfPositive, clearTimerEnableMask] at h ⊢
  omega

theorem Balanced.pos (h : s.Balanced) (hi : s.Armed i) : 0 < s.suspendPending := by
  have hcount := BitMask.count_erase hi
  rw [h]
  omega

/-- The reset loop clears the bits of its range, and keeps the balance. -/
theorem foldl_resetIn (mask : BitVec 64) {is : List ℕ} (hnodup : is.Nodup) (h : s.Balanced)
    (hmask : ∀ i ∈ is, mask.getLsbD i = true ↔ s.Armed i) :
    (is.foldl (resetIn mask) s).Balanced ∧
      ∀ j, (is.foldl (resetIn mask) s).Armed j ↔ s.Armed j ∧ j ∉ is := by
  induction is generalizing s with
  | nil => simpa using h
  | cons i is ih =>
    obtain ⟨hi, hnodup'⟩ := nodup_cons.mp hnodup
    rw [foldl_cons, resetIn]
    split_ifs with hbit
    · have harmed : s.Armed i := (hmask i mem_cons_self).mp hbit
      obtain ⟨hbal, hrest⟩ := ih hnodup' (h.clear harmed) (by
        intro j hj
        rw [hmask j (mem_cons_of_mem i hj)]
        have hne : j ≠ i := fun heq => hi (heq ▸ hj)
        simp [hne])
      refine ⟨hbal, fun j => ?_⟩
      rw [hrest j]
      simp [and_assoc]
    · obtain ⟨hbal, hrest⟩ := ih hnodup' h fun j hj => hmask j (mem_cons_of_mem i hj)
      refine ⟨hbal, fun j => ?_⟩
      rw [hrest j]
      have hoff : ¬ s.Armed i := fun hon => hbit ((hmask i mem_cons_self).mpr hon)
      refine and_congr_right fun hon => ?_
      rw [mem_cons, not_or]
      exact ⟨fun hnot => ⟨fun heq => hoff (heq ▸ hon), hnot⟩, And.right⟩

/-- A reset of a range disarms it, and keeps the balance. -/
theorem resetTimerRange_spec (l : TimerLayout) (h : s.Balanced) (start stop : ℕ) :
    (s.resetTimerRange l start stop).Balanced ∧
      ∀ j, (s.resetTimerRange l start stop).Armed j ↔ s.Armed j ∧ ¬ (start ≤ j ∧ j < stop) := by
  obtain ⟨hbal, hrest⟩ := foldl_resetIn s.timerEnableMask
    (nodup_range' (s := start) (n := stop - start)) h fun _ _ => Iff.rfl
  have hmem (j : ℕ) : j ∉ List.range' start (stop - start) ↔ ¬ (start ≤ j ∧ j < stop) := by
    rw [mem_range'_1]
    omega
  simp only [resetTimerRange]
  split_ifs <;> exact ⟨hbal, fun j => (hrest j).trans (and_congr_right fun _ => hmem j)⟩

/-- Disabling a timer disarms it, and keeps the balance. -/
theorem disableTimer_spec (h : s.Balanced) (hid : timerId < l.nr) :
    (s.disableTimer l timerId).Balanced ∧
      ∀ j, (s.disableTimer l timerId).Armed j ↔ s.Armed j ∧ j ≠ timerId := by
  simp only [disableTimer, Nat.not_le.mpr hid, if_false]
  split_ifs with hbit
  · exact ⟨h.clear hbit, fun j => by simp⟩
  · refine ⟨h, fun j => ?_⟩
    have hoff : ¬ s.Armed timerId := hbit
    grind

/-- The state of `enableTimer` before the new timer is armed: a debounce timer replaces the one that
is armed. -/
def makeRoom (l : TimerLayout) (s : TimerState) (timerId : ℕ) : TimerState :=
  if l.typecStart ≤ timerId then s.resetTimerRange l l.typecStart l.nr else s

/-- An enabled Type-C timer first disarms the others. -/
theorem makeRoom_spec (h : s.Balanced) (hproper : s.Proper l) (timerId : ℕ) :
    (s.makeRoom l timerId).Balanced ∧
      ∀ j, (s.makeRoom l timerId).Armed j ↔
        s.Armed j ∧ ¬ (l.typecStart ≤ timerId ∧ l.typecStart ≤ j) := by
  rw [makeRoom]
  split_ifs with htypec
  · obtain ⟨hbal, hrest⟩ := resetTimerRange_spec l h l.typecStart l.nr
    refine ⟨hbal, fun j => ?_⟩
    rw [hrest j]
    have := hproper.lt_nr j
    grind
  · exact ⟨h, fun j => by simp [htypec]⟩

theorem enableTimer_eq (hid : timerId < l.nr) :
    s.enableTimer l timerId =
      if s.timerEnableMask = ((s.makeRoom l timerId).setTimerEnableMask timerId).timerEnableMask
      then ((s.makeRoom l timerId).setTimerEnableMask timerId).decIfPositive
      else ((s.makeRoom l timerId).setTimerEnableMask timerId).incPending := by
  simp only [enableTimer, Nat.not_le.mpr hid, if_false, makeRoom, ne_eq, BitVec.xor_eq_zero_iff]
  split_ifs <;> simp_all

section

variable (h : s.Balanced) (hproper : s.Proper l)
include h hproper

/-- The timers armed after an enable. -/
theorem armed_enableTimer (hid : timerId < l.nr) (j : ℕ) :
    (s.enableTimer l timerId).Armed j ↔
      s.Armed j ∧ ¬ (l.typecStart ≤ timerId ∧ l.typecStart ≤ j) ∨ j = timerId := by
  have hlt : timerId < 64 := Nat.lt_of_lt_of_le hid l.nr_le
  rw [← (makeRoom_spec h hproper timerId).2 j, ← armed_setTimerEnableMask hlt, enableTimer_eq hid]
  split_ifs <;> simp

/-- Enabling a timer that is not armed keeps the balance. -/
theorem enableTimer_balanced (hid : timerId < l.nr)
    (hfresh : ¬ s.Armed timerId) : (s.enableTimer l timerId).Balanced := by
  have hlt : timerId < 64 := Nat.lt_of_lt_of_le hid l.nr_le
  obtain ⟨hbal, hrest⟩ := makeRoom_spec h hproper timerId
  have hset := armed_setTimerEnableMask (s := s.makeRoom l timerId) hlt timerId
  have hchanged :
      s.timerEnableMask ≠ ((s.makeRoom l timerId).setTimerEnableMask timerId).timerEnableMask := by
    intro heq
    apply hfresh
    rw [Armed, heq]
    exact hset.mpr (.inr rfl)
  have hoff : ¬ (s.makeRoom l timerId).Armed timerId := fun hon => hfresh ((hrest timerId).mp hon).1
  have hcount := BitMask.count_insert hlt (Bool.eq_false_iff.mpr hoff)
  rw [enableTimer_eq hid, if_neg hchanged]
  simp only [Balanced, incPending, setTimerEnableMask] at hbal ⊢
  omega

/-- Enabling an armed timer loses a count. -/
theorem enableTimer_not_balanced (harmed : s.Armed timerId) :
    ¬ (s.enableTimer l timerId).Balanced := by
  have hid := hproper.lt_nr timerId harmed
  have hlt : timerId < 64 := Nat.lt_of_lt_of_le hid l.nr_le
  obtain ⟨hbal, hrest⟩ := makeRoom_spec h hproper timerId
  -- a debounce timer that is armed is the only one, so clearing the group and setting the timer
  -- again gives the same mask
  have hsame :
      s.timerEnableMask = ((s.makeRoom l timerId).setTimerEnableMask timerId).timerEnableMask := by
    apply BitMask.eq_of_getLsbD
    intro j
    rw [Bool.eq_iff_iff]
    change s.Armed j ↔ ((s.makeRoom l timerId).setTimerEnableMask timerId).Armed j
    rw [armed_setTimerEnableMask hlt, hrest j]
    have hone := hproper.oneDebounce j timerId
    grind
  have hle : (s.makeRoom l timerId).suspendPending ≤ s.suspendPending := by
    by_cases htypec : l.typecStart ≤ timerId
    · have hoff : ¬ (s.makeRoom l timerId).Armed timerId := by
        rw [hrest timerId]
        simp [htypec]
      have hcount := BitMask.count_insert hlt (Bool.eq_false_iff.mpr hoff)
      rw [hbal, h, hsame, setTimerEnableMask, hcount]
      exact Nat.le_succ _
    · exact Nat.le_of_eq (by rw [makeRoom, if_neg htypec])
  have hpos := h.pos harmed
  rw [enableTimer_eq hid, if_pos hsame]
  simp only [Balanced, decIfPositive, ← hsame]
  rw [← h]
  simp only [setTimerEnableMask]
  omega

theorem enableTimer_proper (hid : timerId < l.nr) :
    (s.enableTimer l timerId).Proper l where
  lt_nr i hi := by
    rcases (armed_enableTimer h hproper hid i).mp hi with ⟨hold, -⟩ | rfl
    · exact hproper.lt_nr i hold
    · exact hid
  oneDebounce i j hi hj hai haj := by
    rw [armed_enableTimer h hproper hid] at hai haj
    have hone := hproper.oneDebounce i j hi hj
    grind

end

theorem enableTimer_of_le (hid : l.nr ≤ timerId) : s.enableTimer l timerId = s := by
  rw [enableTimer, if_pos hid]

section

variable (h : s.Balanced) (hproper : s.Proper l)
include h hproper

theorem restartTimer_spec (timerId : ℕ) :
    (s.restartTimer l timerId).Balanced ∧ (s.restartTimer l timerId).Proper l := by
  by_cases hid : timerId < l.nr
  · simp only [restartTimer]
    split_ifs with hbit
    · obtain ⟨hbal, hrest⟩ := disableTimer_spec h hid
      have hproper' := hproper.mono fun i hi => ((hrest i).mp hi).1
      have hoff : ¬ (s.disableTimer l timerId).Armed timerId := by
        rw [hrest timerId]
        simp
      exact ⟨enableTimer_balanced hbal hproper' hid hoff, enableTimer_proper hbal hproper' hid⟩
    · exact ⟨enableTimer_balanced h hproper hid hbit, enableTimer_proper h hproper hid⟩
  · have hge : l.nr ≤ timerId := Nat.le_of_not_lt hid
    have hdisable : s.disableTimer l timerId = s := by rw [disableTimer, if_pos hge]
    rw [restartTimer, hdisable, ite_self, enableTimer_of_le hge]
    exact ⟨h, hproper⟩

/-- A call keeps the balance exactly if it is fresh. -/
theorem call_spec (c : TimerCall) :
    ((s.call l c).Balanced ↔ s.Fresh l c) ∧ (s.call l c).Proper l := by
  have hreset (start stop : ℕ) :
      ((s.resetTimerRange l start stop).Balanced ↔ True) ∧
        (s.resetTimerRange l start stop).Proper l := by
    obtain ⟨hbal, hrest⟩ := resetTimerRange_spec l h start stop
    exact ⟨iff_true_intro hbal, hproper.mono fun i hi => ((hrest i).mp hi).1⟩
  cases c with
  | enable timerId =>
    simp only [call, Fresh]
    by_cases hid : timerId < l.nr
    · refine ⟨?_, enableTimer_proper h hproper hid⟩
      by_cases harmed : s.Armed timerId
      · simp [hid, harmed, enableTimer_not_balanced h hproper harmed]
      · simp [harmed, enableTimer_balanced h hproper hid harmed]
    · rw [enableTimer_of_le (Nat.le_of_not_lt hid)]
      exact ⟨by simp [hid, h], hproper⟩
  | restart timerId => exact (restartTimer_spec h hproper timerId).imp_left iff_true_intro
  | disable timerId =>
    by_cases hid : timerId < l.nr
    · obtain ⟨hbal, hrest⟩ := disableTimer_spec h hid
      exact ⟨iff_true_intro hbal, hproper.mono fun i hi => ((hrest i).mp hi).1⟩
    · rw [call, disableTimer, if_pos (Nat.le_of_not_lt hid)]
      exact ⟨iff_true_intro h, hproper⟩
  | resetPe => exact hreset 0 l.peEnd
  | resetTypecDebounce => exact hreset l.typecStart l.nr
  | resetTypecTry => exact hreset l.tryStart l.typecStart

end

theorem start_balanced (tick : BitVec 64) (wakeUp : Bool) : (start tick wakeUp).Balanced := by
  simp only [Balanced, start]
  decide

theorem start_proper (l : TimerLayout) (tick : BitVec 64) (wakeUp : Bool) :
    (start tick wakeUp).Proper l where
  lt_nr i hi := absurd hi (armed_start tick wakeUp i)
  oneDebounce i _ _ _ hi _ := absurd hi (armed_start tick wakeUp i)

/-- Over every sequence of calls, `suspend_pending` is the number of armed timers after each call,
and at most one debounce timer is armed, exactly if no call enables a timer that is armed already.
-/
theorem pending_counts_armed_iff (l : TimerLayout) (tick : BitVec 64) (wakeUp : Bool)
    (calls : List TimerCall) :
    (∀ pre, pre <+: calls →
        (pre.foldl (call l) (start tick wakeUp)).Balanced ∧
          (pre.foldl (call l) (start tick wakeUp)).OneDebounce l) ↔
      Runs.RunOk (call l) (Fresh l) (start tick wakeUp) calls := by
  have hgood (s : TimerState) (hs : s.Balanced ∧ s.Proper l) : s.Balanced ∧ s.OneDebounce l :=
    ⟨hs.1, hs.2.oneDebounce⟩
  have hstep (s : TimerState) (c : TimerCall) (hs : s.Balanced ∧ s.Proper l) :
      (s.call l c).Balanced ∧ (s.call l c).OneDebounce l ↔ s.Fresh l c := by
    obtain ⟨hiff, hproper⟩ := call_spec hs.1 hs.2 c
    rw [hiff, and_iff_left hproper.oneDebounce]
  have hkeep (s : TimerState) (c : TimerCall) (hs : s.Balanced ∧ s.Proper l)
      (hfresh : s.Fresh l c) : (s.call l c).Balanced ∧ (s.call l c).Proper l :=
    (call_spec hs.1 hs.2 c).imp_left fun hiff => hiff.mpr hfresh
  exact Runs.forall_prefix_iff_runOk hgood hstep hkeep
    ⟨start_balanced tick wakeUp, start_proper l tick wakeUp⟩ calls

/-- Timer 0 is enabled twice: it is armed, and the device counts as idle. -/
theorem not_pending_counts_armed :
    (start 0 false |>.call defaultLayout (.enable 0) |>.call defaultLayout (.enable 0)).Armed 0 ∧
      (start 0 false |>.call defaultLayout (.enable 0)
        |>.call defaultLayout (.enable 0)).suspendPending = 0 ∧
      ¬ (start 0 false |>.call defaultLayout (.enable 0)
        |>.call defaultLayout (.enable 0)).Balanced := by
  decide +kernel

end TimerState

end Mt8169.Typec
