import Mt8169.Btif.Balance
import Mathlib.Tactic.ByContra

/-!
# Waiting for the end of a transmission

`_btif_enter_dpidle_from_on` polls until the transmission is complete, for a number of retries and
for a time. After the loop it looks at the number of retries only, so that it disables the clocks
when the time is over.
-/

namespace Mt8169.Btif

/-- What the loop meets: the answers of `_btif_is_tx_complete`, the second it starts at and the
seconds read after each answer. -/
structure Polls where
  complete : ℕ → Bool
  timerStart : ℤ
  timerNow : ℕ → ℤ

namespace Polls

/-- `max_retry` -/
def maxRetry : ℕ := 5000

variable (p : Polls)

/-- The loop of `_btif_enter_dpidle_from_on` with `n` retries left: the number of retries at its
end, which is also the number of the last poll. -/
def retryLoop : ℕ → ℕ
  | 0 => maxRetry
  | n + 1 =>
    let retry := maxRetry - (n + 1)
    if p.complete retry then retry
    else if 5000 / 1000 ≤ p.timerNow retry - p.timerStart then retry
    else retryLoop n

def retry : ℕ := p.retryLoop maxRetry

/-- What a call of `_btif_enter_dpidle_from_on` meets with these polls. -/
def answers (a : Answers) : Answers := { a with txDone := decide (p.retry < maxRetry) }

/-- The clocks are disabled, and the state becomes deep idle, only if the last poll has reported
that the transmission is complete. Otherwise there is an error, and nothing changes. -/
def Waits (d : Device) (a : Answers) : Prop :=
  (p.complete p.retry = true ∨ d.enterDpidleFromOn (p.answers a) = (-1, d)) ∧
    (d.state ≠ .dpidle → (d.enterDpidle (p.answers a)).2.state = .dpidle →
      p.complete p.retry = true)

variable {p}

/-- The loop ends when the transmission is complete, or after five milliseconds. -/
theorem retryLoop_spec (p : Polls) {n : ℕ} (hn : n ≤ maxRetry) :
    p.retryLoop n ≤ maxRetry ∧
      (p.retryLoop n < maxRetry → p.complete (p.retryLoop n) = true ∨
        5 ≤ p.timerNow (p.retryLoop n) - p.timerStart) ∧
      ∀ k, maxRetry - n ≤ k → k < p.retryLoop n →
        p.complete k = false ∧ p.timerNow k - p.timerStart < 5 := by
  induction n with
  | zero => exact ⟨Nat.le_refl _, fun h => absurd h (Nat.lt_irrefl _), by simp [retryLoop]; omega⟩
  | succ n ih =>
    obtain ⟨hle, hend, hbefore⟩ := ih (by omega)
    unfold retryLoop
    dsimp only
    split_ifs with hcomplete htime
    · exact ⟨by omega, fun _ => Or.inl hcomplete, by omega⟩
    · exact ⟨by omega, fun _ => Or.inr htime, by omega⟩
    · refine ⟨hle, hend, fun k hlo hhi => ?_⟩
      by_cases hfirst : k = maxRetry - (n + 1)
      · subst hfirst
        exact ⟨by simpa using hcomplete, by omega⟩
      · exact hbefore k (by omega) hhi

/-- The transmission is complete before the time is over. -/
def InTime (p : Polls) : Prop :=
  ∀ k < maxRetry, (∀ j ≤ k, p.complete j = false) → p.timerNow k - p.timerStart < 5

theorem inTime_iff : p.InTime ↔ (p.retry < maxRetry → p.complete p.retry = true) := by
  obtain ⟨hle, hend, hbefore⟩ := p.retryLoop_spec (Nat.le_refl maxRetry)
  rw [Nat.sub_self] at hbefore
  constructor
  · intro h hlt
    by_contra hnot
    have hnone : ∀ j ≤ p.retry, p.complete j = false := fun j hj => by
      rcases Nat.lt_or_eq_of_le hj with hj | rfl
      · exact (hbefore j (Nat.zero_le j) hj).1
      · simpa using hnot
    exact absurd (h p.retry hlt hnone) (Int.not_lt.mpr ((hend hlt).resolve_left hnot))
  · intro h k hk hnone
    refine (hbefore k (Nat.zero_le k) ?_).2
    by_contra hge
    have hretry : p.retry ≤ k := Nat.not_lt.mp hge
    simp [hnone p.retry hretry] at h
    omega

theorem state_init (d : Device) (a : Answers) : (d.init a).2.state = d.state := by
  have hsetup : (d.controllerSetup a).2.state = d.state := by
    simp only [Device.controllerSetup, Device.clkEnable, Device.clkDisable]
    split_ifs <;> rfl
  obtain ⟨_, _, _, _, heq, -⟩ := Device.channelsSetup_eq (d.controllerSetup a).2 a
  rw [Device.init_eq, heq]
  split_ifs <;> exact hsetup

theorem state_enterDpidle {d : Device} {a : Answers} (hstate : d.state ≠ .dpidle)
    (hdone : a.txDone = false) : (d.enterDpidle a).2.state ≠ .dpidle := by
  have hinit := state_init d a
  cases hd : d.state with
  | dpidle => exact absurd hd hstate
  | on | off => simp [Device.enterDpidle, Device.enterDpidleFromOn, hd, hdone, eInvalState]
  | suspend =>
    by_cases hok : (d.init a).1 = 0
    all_goals simp [Device.enterDpidle, Device.enterDpidleFromSus, Device.enterDpidleFromOn, hd,
      hdone, hok, hinit]

/-- The wait is right exactly if the time is not over before the transmission is complete. -/
theorem waits_iff (p : Polls) (d : Device) (a : Answers) : p.Waits d a ↔ p.InTime := by
  rw [inTime_iff, Waits, Device.enterDpidleFromOn_eq]
  by_cases hlt : p.retry < maxRetry
  · simp [answers, hlt]
    exact fun h _ _ => h
  · have hdone : (p.answers a).txDone = false := by simp [answers, hlt]
    rw [hdone]
    exact ⟨fun _ h => absurd h hlt, fun _ => ⟨Or.inr rfl, fun hstate hidle =>
      absurd hidle (state_enterDpidle hstate hdone)⟩⟩

/-- The transmission never ends, and the clock goes on by five seconds before the first answer. -/
theorem not_waits_late : ¬(⟨fun _ => false, 0, fun _ => 5⟩ : Polls).Waits
    ⟨.on, true, .dma, .dma, .user, 0, 1, 1, 1⟩ ⟨true, 0, 0, 0, 0, 0, 0, false, 0⟩ := by
  intro h
  exact absurd (h.2 (by decide) (by decide +kernel)) (by decide)

end Polls

end Mt8169.Btif
