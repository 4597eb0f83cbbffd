import Mt8169.Cmdq.Thread
import Mt8169.Lib.Runs

/-!
# The clock of a GCE thread

The clock is enabled when a task enters an empty list and disabled by whoever empties it. Every path
decides for itself whether to disable it. They agree as long as the timeout work finds a task when
it takes the lock again.
-/

namespace Mt8169.Cmdq

open Runs

variable {s : Thread}

/-- The clock is on exactly while there are tasks, and a thread without tasks is
disabled. -/
structure ClockInv (s : Thread) : Prop where
  clk_eq : s.clk = if s.taskBusyList = [] then 0 else 1
  disabled : s.taskBusyList = [] → s.enabled = false

theorem ClockInv.congr {s' : Thread} (h : ClockInv s) (hlist : s'.taskBusyList = s.taskBusyList)
    (hclk : s'.clk = s.clk) (henabled : s'.enabled = s.enabled) : ClockInv s' where
  clk_eq := by rw [hclk, hlist, h.clk_eq]
  disabled := fun hempty => by rw [henabled, h.disabled (hlist ▸ hempty)]

theorem clockInv_of_ne_nil (hlist : s.taskBusyList ≠ []) (hclk : s.clk = 1) :
    ClockInv s where
  clk_eq := by rw [hclk, if_neg hlist]
  disabled := fun hempty => absurd hempty hlist

theorem ClockInv.clk_of_ne_nil (h : ClockInv s) (hlist : s.taskBusyList ≠ []) : s.clk = 1 := by
  rw [h.clk_eq, if_neg hlist]

theorem clockInv_threadOff (hlist : s.taskBusyList = []) (hclk : s.clk = 1) :
    ClockInv (threadOff s) where
  clk_eq := by simp [threadOff, hlist, hclk]
  disabled := fun _ => rfl

/-- A submission turns the clock on once. -/
theorem ClockInv.exec (h : ClockInv s) (shift : ℕ) (ptr : Option ℕ) (pkt : ThreadPkt)
    (lastWord : ℕ) : ClockInv (cmdqTaskExec shift ptr pkt lastWord s) := by
  rcases cmdqTaskExec_entered shift ptr pkt lastWord s with
    hsame | ⟨task, before, passed, -, hentered⟩
  · rw [hsame]
    exact h
  · refine clockInv_of_ne_nil (by simp [hentered.list']) ?_
    rw [hentered.clk, h.clk_eq]
    split_ifs <;> rfl

/-- The events of a thread keep the clock in line with its list. -/
theorem keptBy_clockInv : KeptBy ClockInv (·.clk = 1) where
  congr h hlist hclk henabled _ _ := h.congr hlist hclk henabled
  pending hclk _ heq _ _ := heq.trans hclk
  loop h _ _ := h.congr rfl rfl rfl
  takeOff h hbusy _ := h.clk_of_ne_nil fun hnil => by simp [h.disabled hnil, hnil] at hbusy
  listed hclk hlist := clockInv_of_ne_nil hlist hclk
  off hclk hlist := clockInv_threadOff hlist hclk

/-- The timeout work takes the lock again only while there are tasks. -/
def RelocksOnTask (s : Thread) : ThreadEvent → Prop
  | .timeoutRelock => s.timeoutTask.isSome → s.taskBusyList ≠ []
  | _ => True

/-- In every run in which the timeout work finds tasks when it takes the lock again, the clock is
enabled once while there are tasks and not at all while there are none. -/
theorem clk_eq_of_reaches (shift : ℕ) (mem : ℕ → ℕ) {s : Thread}
    (hrun : Reaches (threadStep shift) RelocksOnTask (Thread.init mem) s) :
    (s.taskBusyList ≠ [] → s.clk = 1) ∧ (s.taskBusyList = [] → s.clk = 0) ∧ 0 ≤ s.clk := by
  have hinv : ClockInv s := by
    refine hrun.invariant ⟨rfl, fun _ => rfl⟩ fun s e h hok => ?_
    refine keptBy_clockInv.step h shift e (h.exec shift) ?_
    rintro rfl hptr
    exact keptBy_clockInv.restart (h.clk_of_ne_nil (hok hptr))
  have hclk := hinv.clk_eq
  refine ⟨hinv.clk_of_ne_nil, fun hnil => by rw [hclk, if_pos hnil], ?_⟩
  rw [hclk]
  split_ifs <;> decide

/-- The stop drops the task and disables the clock. The timeout work finds an empty list and
disables the clock again. -/
theorem clk_negative :
    (stoppedInTimeout.foldl (threadStep 3) (Thread.init fun _ => 0)).taskBusyList = [] ∧
      (stoppedInTimeout.foldl (threadStep 3) (Thread.init fun _ => 0)).clk = -1 := by
  constructor
  · rfl
  · decide

/-- The first of two tasks times out, and the timeout work restarts the thread at the second one. -/
def timedOutFirst : List ThreadEvent :=
  [.exec (some 1) (smallPkt 7 0x1000) endJump, .exec (some 2) (smallPkt 8 0x2000) endJump,
    .timeout true true noIrq, .timeoutRelock]

/-- The clock is on after the timeout, with the second task, and off once this one is removed. -/
theorem clk_timedOutFirst :
    (timedOutFirst.foldl (threadStep 3) (Thread.init fun _ => 0)).clk = 1 ∧
      (threadStep 3 (timedOutFirst.foldl (threadStep 3) (Thread.init fun _ => 0))
        (.removeTask 8 noIrq)).clk = 0 := by
  have hrun : RunOk (threadStep 3) RelocksOnTask (Thread.init fun _ => 0) timedOutFirst :=
    ⟨trivial, trivial, trivial, fun _ => by decide, trivial⟩
  have hreaches := Reaches.start.foldl hrun
  constructor
  · exact (clk_eq_of_reaches 3 _ hreaches).1 (by decide)
  · have hremoved := hreaches.next (show RelocksOnTask _ (.removeTask 8 noIrq) from trivial)
    exact (clk_eq_of_reaches 3 _ hremoved).2.1 (by decide)

end Mt8169.Cmdq
