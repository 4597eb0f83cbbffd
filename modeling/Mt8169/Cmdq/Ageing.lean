import Mt8169.Cmdq.Thread
import Mt8169.Lib.Runs

/-!
# Overtaking in the list of a GCE thread

A task that is inserted by priority overtakes queued tasks of lower priority, and each of these
ages: its priority grows by `CMDQ_MIN_AGE_VALUE`. So the list is not sorted, but while the 32-bit
priorities do not wrap, a task is overtaken only as often as its priority can grow below the largest
one.
-/

namespace Mt8169.Cmdq

open MachineInt Runs List Nat

/-- The events of a task list: a packet is submitted with the engine at `currPa`, and the first task
is completed. -/
inductive QueueEvent where
  | submit (currPa ptr : ℕ) (pkt : ThreadPkt) (lastWord : ℕ)
  | complete

variable (shift : ℕ)

variable (largest : ℕ) (s : Thread)

/-- One step of a task list. -/
def queueStep : QueueEvent → Thread
  | .submit currPa ptr pkt lastWord =>
    cmdqTaskExec shift (some ptr) pkt lastWord { s with pc := currPa }
  | .complete => { s with taskBusyList := s.taskBusyList.tail }

/-- No packet has a priority above `largest`, and the engine is inside a queued task when a
packet is submitted to a busy thread. -/
def QueueOk : QueueEvent → Prop
  | .submit currPa _ pkt _ => pkt.priority ≤ largest ∧
    (s.taskBusyList ≠ [] → ∃ running ∈ s.taskBusyList, running.pkt.isCurrentRun currPa)
  | .complete => True

instance (largest : ℕ) (s : Thread) (e : QueueEvent) : Decidable (QueueOk largest s e) := by
  cases e <;> unfold QueueOk <;> infer_instance

/-- The task numbered `k` stands before the task numbered `l`. -/
def ahead (tasks : List Task) (k l : ℕ) : Prop :=
  (tasks.map (·.serial)).idxOf k < (tasks.map (·.serial)).idxOf l ∧ l ∈ tasks.map (·.serial)
  deriving Decidable

/-- In this step a task is submitted that is put before the queued task `k`. -/
def overtakes (k : ℕ) (s : Thread) (e : QueueEvent) : Prop :=
  k ∈ s.taskBusyList.map (·.serial) ∧
    ahead (queueStep shift s e).taskBusyList s.allocated.length k
  deriving Decidable

/-- How often the task `k` is overtaken in a run. -/
def overtakings (shift k : ℕ) : Thread → List QueueEvent → ℕ
  | _, [] => 0
  | s, e :: es => (if overtakes shift k s e then 1 else 0) +
    overtakings shift k (queueStep shift s e) es

/-- The bound for a task of a given priority: the difference to the largest one over
`CMDQ_MIN_AGE_VALUE`, rounded up. -/
def overtakingBound (priority : ℕ) : ℕ :=
  (largest - priority + (cmdqMinAgeValue - 1)) / cmdqMinAgeValue

/-- A submitted task is not put before the running task. -/
def BehindRunning : QueueEvent → Prop
  | .submit currPa ptr pkt lastWord => ∀ running ∈ s.taskBusyList,
    running.pkt.isCurrentRun currPa →
      ¬ahead (queueStep shift s (.submit currPa ptr pkt lastWord)).taskBusyList
        s.allocated.length running.serial
  | .complete => True

/-- Every task that is submitted in the run is overtaken at most as often as its priority
allows. -/
def OvertakingBounded (es : List QueueEvent) : Prop :=
  ∀ task ∈ (es.foldl (queueStep shift) s).allocated,
    overtakings shift task.serial s es ≤ overtakingBound largest task.pkt.priority

/-- Either no task enters the list, or one does as `Entered` says. -/
theorem queueStep_cases (s : Thread) (e : QueueEvent) :
    ((queueStep shift s e).taskBusyList ⊆ s.taskBusyList ∧
      (queueStep shift s e).allocated = s.allocated) ∨
    ∃ currPa ptr lastWord task before passed, e = .submit currPa ptr task.pkt lastWord ∧
      Entered currPa s (queueStep shift s e) task before passed := by
  cases e with
  | complete => exact Or.inl ⟨(tail_sublist _).subset, rfl⟩
  | submit currPa ptr pkt lastWord =>
    rcases cmdqTaskExec_entered shift (some ptr) pkt lastWord { s with pc := currPa } with
      hsame | ⟨task, before, passed, rfl, hentered⟩
    · have hstep : queueStep shift s (.submit currPa ptr pkt lastWord) = _ := hsame
      rw [hstep]
      exact Or.inl ⟨List.Subset.refl _, rfl⟩
    · exact Or.inr ⟨currPa, ptr, lastWord, task, before, passed, rfl, { hentered with }⟩

/-- What holds when each task `k` has been overtaken `count k` times: what a queued task has aged
makes up for it. -/
structure Aged (largest : ℕ) (s : Thread) (count : ℕ → ℕ) : Prop where
  queued_lt : ∀ task ∈ s.taskBusyList, task.serial < s.allocated.length
  serial_lt : ∀ task ∈ s.allocated, task.serial < s.allocated.length
  fresh : ∀ k, s.allocated.length ≤ k → count k = 0
  bound : ∀ task ∈ s.allocated,
    count task.serial ≤ overtakingBound largest task.pkt.priority ∧
    ∀ queued ∈ s.taskBusyList, queued.serial = task.serial →
      count task.serial + overtakingBound largest queued.pkt.priority ≤
        overtakingBound largest task.pkt.priority

theorem not_ahead {tasks : List Task} {n : ℕ} (hlt : ∀ task ∈ tasks, task.serial < n) (k : ℕ) :
    ¬ahead tasks n k := by
  rintro ⟨hbefore, hmem⟩
  have hnew : n ∈ tasks.map (·.serial) :=
    idxOf_lt_length_iff.mp (hbefore.trans (idxOf_lt_length_of_mem hmem))
  obtain ⟨task, htask, hserial⟩ := mem_map.mp hnew
  exact absurd (hlt task htask) (by omega)

/-- An overtaken task gets nearer to the largest priority. -/
theorem overtakingBound_age {largest : ℕ} (hlargest : largest + cmdqMinAgeValue ≤ 2 ^ 32)
    {task : Task} (h : task.pkt.priority < largest) :
    1 + overtakingBound largest task.age.pkt.priority ≤
      overtakingBound largest task.pkt.priority := by
  have haged : task.age.pkt.priority = task.pkt.priority + cmdqMinAgeValue :=
    mod_eq_of_lt (by omega)
  rw [haged]
  unfold overtakingBound cmdqMinAgeValue
  omega

section Entered

variable {currPa largest : ℕ} {s s' : Thread} {task queued : Task} {before passed : List Task}
  {count : ℕ → ℕ} (h : Entered currPa s s' task before passed)
include h

theorem Entered.not_ahead (hlt : ∀ task ∈ s.taskBusyList, task.serial < s.allocated.length)
    (hqueued : queued ∈ before) :
    ¬ahead s'.taskBusyList s.allocated.length queued.serial := by
  rintro ⟨hfirst, -⟩
  have hfresh : s.allocated.length ∉ before.map (·.serial) := by
    intro hmem
    obtain ⟨old, hold, hserial⟩ := mem_map.mp hmem
    exact absurd (hlt old (h.list ▸ mem_append_left _ hold)) (by omega)
  have hin : queued.serial ∈ before.map (·.serial) := mem_map_of_mem hqueued
  rw [h.list', map_append, map_cons, h.serial, idxOf_append_of_notMem hfresh, idxOf_cons_self,
    idxOf_append_of_mem hin] at hfirst
  have hindex := idxOf_lt_length_of_mem hin
  omega

/-- A task is overtaken only if the search passes it. -/
theorem Entered.passed_of_ahead (hlt : ∀ task ∈ s.taskBusyList, task.serial < s.allocated.length)
    (hqueued : queued ∈ s.taskBusyList)
    (hahead : ahead s'.taskBusyList s.allocated.length queued.serial) : queued ∈ passed := by
  rw [h.list] at hqueued
  exact (mem_append.mp hqueued).resolve_left fun hbefore => h.not_ahead hlt hbefore hahead

/-- A submission ages the tasks that it overtakes. -/
theorem Entered.aged (hlargest : largest + cmdqMinAgeValue ≤ 2 ^ 32) (hs : Aged largest s count)
    (hpriority : task.pkt.priority ≤ largest) {late : ℕ → Prop} [DecidablePred late]
    (hlate : ∀ k, late k → k ∈ s.taskBusyList.map (·.serial) ∧
      ahead s'.taskBusyList s.allocated.length k) :
    Aged largest s' fun k => count k + if late k then 1 else 0 := by
  have hlength : s'.allocated.length = s.allocated.length + 1 := by
    rw [h.allocated, length_append, length_singleton]
  have hnew : ∀ k, s.allocated.length ≤ k → ¬late k := by
    intro k hk hlatek
    obtain ⟨old, hold, rfl⟩ := mem_map.mp (hlate k hlatek).1
    exact absurd (hs.queued_lt old hold) (by omega)
  have hserial := h.serial
  refine ⟨fun queued hqueued => ?_, fun given hgiven => ?_, fun k hk => ?_,
    fun given hgiven => ?_⟩
  · rw [hlength]
    rcases h.mem_cases hqueued with rfl | ⟨old, hold, hsame, -⟩
    · omega
    · exact hsame ▸ lt_succ_of_lt (hs.queued_lt old hold)
  · rw [h.allocated, mem_append, mem_singleton] at hgiven
    rw [hlength]
    rcases hgiven with hold | rfl
    · exact lt_succ_of_lt (hs.serial_lt given hold)
    · omega
  · rw [if_neg (hnew k (by omega)), hs.fresh k (by omega)]
  · rw [h.allocated, mem_append, mem_singleton] at hgiven
    rcases hgiven with hgiven | rfl
    · obtain ⟨hle, hqueue⟩ := hs.bound given hgiven
      have hage : ∀ old ∈ passed, old.serial = given.serial → count given.serial +
          (if late given.serial then 1 else 0) +
          overtakingBound largest old.age.pkt.priority ≤
          overtakingBound largest given.pkt.priority := by
        intro old hold hsame
        have hthen := hqueue old (h.list ▸ mem_append_right _ hold) hsame
        have hgrow := overtakingBound_age hlargest
          ((h.overtaken old hold).2.trans_le hpriority)
        split_ifs <;> omega
      constructor
      · split_ifs with hlatek
        · obtain ⟨old, hold, hsame⟩ := mem_map.mp (hlate _ hlatek).1
          have hin := h.passed_of_ahead hs.queued_lt hold (hsame ▸ (hlate _ hlatek).2)
          have hsum := hage old hin hsame
          rw [if_pos hlatek] at hsum
          omega
        · exact hle
      · intro queued hqueued hsame
        rcases h.mem_cases hqueued with rfl | ⟨old, hold, -, ⟨hbefore, rfl⟩ | ⟨hpassed, rfl⟩⟩
        · exact absurd (hs.serial_lt given hgiven) (by omega)
        · have hnot : ¬late given.serial := fun hlatek =>
            h.not_ahead hs.queued_lt hbefore (hsame ▸ (hlate _ hlatek).2)
          rw [if_neg hnot]
          exact hqueue queued hold hsame
        · exact hage old hpassed hsame
    · rw [if_neg (hnew _ hserial.ge), hs.fresh _ hserial.ge]
      refine ⟨zero_le _, fun queued hqueued hsame => ?_⟩
      rcases h.mem_cases hqueued with rfl | ⟨old, hold, hold', -⟩
      · omega
      · exact absurd (hs.queued_lt old hold) (by omega)

end Entered

variable {largest shift : ℕ} {s : Thread} {es : List QueueEvent} {count : ℕ → ℕ}

/-- A step goes behind the running task, and ages those that it overtakes. -/
theorem Aged.step (hlargest : largest + cmdqMinAgeValue ≤ 2 ^ 32) (h : Aged largest s count)
    {e : QueueEvent} (hok : QueueOk largest s e) :
    BehindRunning shift s e ∧ Aged largest (queueStep shift s e) fun k =>
      count k + if overtakes shift k s e then 1 else 0 := by
  rcases queueStep_cases shift s e with
    ⟨hsub, hallocated⟩ | ⟨currPa, ptr, lastWord, task, before, passed, rfl, hentered⟩
  · have hlt : ∀ task ∈ (queueStep shift s e).taskBusyList, task.serial < s.allocated.length :=
      fun task htask => h.queued_lt task (hsub htask)
    constructor
    · cases e with
      | submit => exact fun running _ _ => not_ahead hlt _
      | complete => exact trivial
    · simp only [overtakes, not_ahead hlt, and_false, if_false, add_zero]
      refine ⟨?_, ?_, ?_, ?_⟩ <;> rw [hallocated]
      · exact hlt
      · exact h.serial_lt
      · exact h.fresh
      · intro task htask
        obtain ⟨hle, hqueue⟩ := h.bound task htask
        exact ⟨hle, fun queued hqueued => hqueue queued (hsub hqueued)⟩
  · constructor
    · intro running hrunning hcurrent hahead
      have hpassed := hentered.passed_of_ahead h.queued_lt hrunning hahead
      have hnot := (hentered.overtaken running hpassed).1
      rw [hcurrent] at hnot
      cases hnot
    · exact hentered.aged hlargest h hok.1 fun k hlate => hlate

theorem Aged.run (hlargest : largest + cmdqMinAgeValue ≤ 2 ^ 32) (h : Aged largest s count)
    (hes : RunOk (queueStep shift) (QueueOk largest) s es) :
    RunOk (queueStep shift) (BehindRunning shift) s es ∧
      Aged largest (es.foldl (queueStep shift) s) fun k => count k + overtakings shift k s es := by
  induction es generalizing s count with
  | nil => exact ⟨trivial, h⟩
  | cons e es ih =>
    obtain ⟨hbehind, hnext⟩ := h.step hlargest hes.1
    obtain ⟨hrest, hlast⟩ := ih hnext hes.2
    refine ⟨⟨hbehind, hrest⟩, ?_⟩
    simp only [add_assoc] at hlast
    exact hlast

/-- A packet of two commands at `pa` with a priority. -/
def priorityPkt (pa priority : ℕ) : ThreadPkt := { smallPkt pa pa with priority := priority }

/-- While the first packet runs, a packet just below the largest priority is overtaken, and once
more by a packet of priority 4. -/
def wrappingRun (largest : ℕ) : List QueueEvent :=
  [.submit 0 0 (priorityPkt 0x1000 0) endJump,
    .submit 0x1000 1 (priorityPkt 0x2000 (largest - 1)) endJump,
    .submit 0x1000 2 (priorityPkt 0x3000 largest) endJump,
    .submit 0x1000 3 (priorityPkt 0x4000 4) endJump]

section

variable (hlow : 2 ^ 32 < largest + cmdqMinAgeValue) (hhigh : largest < 2 ^ 32)
include hlow hhigh

theorem wrappingRun_overtakings :
    RunOk (queueStep 0) (QueueOk largest) (Thread.init fun _ => 0) (wrappingRun largest) ∧
    overtakings 0 1 (Thread.init fun _ => 0) (wrappingRun largest) = 2 ∧
    ∃ task ∈ ((wrappingRun largest).foldl (queueStep 0) (Thread.init fun _ => 0)).allocated,
      task.serial = 1 ∧ task.pkt.priority = largest - 1 := by
  unfold cmdqMinAgeValue at hlow
  have hcases : largest = 4294967292 ∨ largest = 4294967293 ∨ largest = 4294967294 ∨
    largest = 4294967295 := by omega
  rcases hcases with rfl | rfl | rfl | rfl <;>
    exact ⟨by decide +kernel, by decide +kernel, by decide +kernel⟩

/-- A priority that wraps around is overtaken without a bound. -/
theorem not_overtakingBounded_wrappingRun :
    ¬OvertakingBounded 0 largest (Thread.init fun _ => 0) (wrappingRun largest) := by
  intro hbounded
  obtain ⟨-, htwice, task, htask, hserial, hpriority⟩ := wrappingRun_overtakings hlow hhigh
  have honce := hbounded task htask
  rw [hserial, htwice, hpriority] at honce
  unfold overtakingBound cmdqMinAgeValue at honce
  omega

end

/-- For priorities up to `largest`, no task is ever put before the running one and every task is
overtaken at most as often as its priority allows, if and only if adding `CMDQ_MIN_AGE_VALUE` below
the largest priority cannot wrap. -/
theorem overtaking_bounded_iff {largest : ℕ} (hlargest : largest < 2 ^ 32) :
    (∀ shift mem es,
      RunOk (queueStep shift) (QueueOk largest) (Thread.init mem) es →
        RunOk (queueStep shift) (BehindRunning shift) (Thread.init mem) es ∧
        OvertakingBounded shift largest (Thread.init mem) es) ↔
      largest + cmdqMinAgeValue ≤ 2 ^ 32 := by
  constructor
  · intro hall
    by_contra hlow
    rw [not_le] at hlow
    have hrun := wrappingRun_overtakings hlow hlargest
    exact not_overtakingBounded_wrappingRun hlow hlargest (hall 0 _ _ hrun.1).2
  · intro hnowrap shift mem es hes
    have hinit : Aged largest (Thread.init mem) fun _ => 0 :=
      ⟨by simp [Thread.init], by simp [Thread.init], fun _ _ => rfl, by simp [Thread.init]⟩
    obtain ⟨hbehind, haged⟩ := hinit.run hnowrap hes
    refine ⟨hbehind, fun task htask => ?_⟩
    have hbound := (haged.bound task htask).1
    rwa [zero_add] at hbound

/-- With priorities up to 10 nothing wraps. -/
theorem overtaking_bounded_ten : 10 + cmdqMinAgeValue ≤ 2 ^ 32 ∧ ∀ shift mem es,
    RunOk (queueStep shift) (QueueOk 10) (Thread.init mem) es →
      RunOk (queueStep shift) (BehindRunning shift) (Thread.init mem) es ∧
      OvertakingBounded shift 10 (Thread.init mem) es :=
  ⟨by decide, (overtaking_bounded_iff (by decide)).mpr (by decide)⟩

/-- A packet of priority 4294967294 may be overtaken once by packets of priority up to 4294967295.
It is overtaken twice, the second time by a packet of priority 4. -/
theorem not_overtakingBounded_max :
    RunOk (queueStep 0) (QueueOk 4294967295) (Thread.init fun _ => 0) (wrappingRun 4294967295) ∧
    ¬OvertakingBounded 0 4294967295 (Thread.init fun _ => 0) (wrappingRun 4294967295) := by
  constructor
  · exact (wrappingRun_overtakings (by decide) (by decide)).1
  · exact not_overtakingBounded_wrappingRun (by decide) (by decide)

end Mt8169.Cmdq
