import Mt8169.Cmdq.Fetch

/-!
# A GCE thread

A thread executes a list of tasks, one packet each. The last command word of a packet is rewritten
to jump to the next task. Interrupts, the timeout work, the removal of a task and the stop of the
channel retire tasks under the channel lock; the timeout work drops it once, to run an error
callback. The definitions follow `mtk-cmdq-mailbox-ext.c`. Between two locked sections the engine
may move to another command, unless the thread is suspended or disabled.
-/

namespace Mt8169.Cmdq

open MachineInt List

/-- `struct cmdq_pkt` as the thread code uses it. `id` stands for its address and `bufs` for the DMA
addresses of its buffers; the contents are in memory. -/
structure ThreadPkt where
  id : ℕ
  bufs : List ℕ
  availBufSize : ℕ
  priority : ℕ
  loop : Bool
  cb : Bool

/-- `struct cmdq_task`. `ptr` is its address, which may be that of an earlier task; `serial` numbers
the tasks and is not in the source. -/
structure Task where
  ptr : ℕ
  serial : ℕ
  paBase : ℕ
  pkt : ThreadPkt

/-- The state of a thread: the list and flags of `struct cmdq_thread`, its registers, the command
words by physical address, and what has been done so far: the net number of clock enables, the tasks
allocated and those called back, in order. `timeoutTask` is the pointer that the timeout work holds
while it has dropped the lock. -/
structure Thread where
  taskBusyList : List Task
  mem : ℕ → ℕ
  pc : ℕ
  endAddr : ℕ
  enabled : Bool
  suspended : Bool
  dirty : Bool
  clk : ℤ
  allocated : List Task
  called : List ℕ
  timeoutTask : Option ℕ

/-- A thread that has not been used. -/
def Thread.init (mem : ℕ → ℕ) : Thread where
  taskBusyList := []
  mem := mem
  pc := 0
  endAddr := 0
  enabled := false
  suspended := false
  dirty := false
  clk := 0
  allocated := []
  called := []
  timeoutTask := none

/-- `cmdq_thread_suspend`. -/
def cmdqThreadSuspend (s : Thread) : Thread := { s with suspended := true }

/-- `cmdq_thread_resume`. -/
def cmdqThreadResume (s : Thread) : Thread := { s with suspended := false }

/-- `cmdq_task_get_end_pa`: the address after the last command. -/
def ThreadPkt.endPa (pkt : ThreadPkt) : ℕ :=
  (pkt.bufs.getLast?.getD 0) + appendOffset pkt.availBufSize

/-- The ranges that `cmdq_task_current_va` searches. The end of a range is computed in
a 32-bit variable. -/
def currentVaRanges (availBufSize : ℕ) : List ℕ → List (ℕ × ℕ)
  | [] => []
  | [pa] => [(pa, u32 (pa + appendOffset availBufSize))]
  | pa :: bufs => (pa, u32 (pa + cmdqCmdBufferSize)) :: currentVaRanges availBufSize bufs

/-- `cmdq_task_is_current_run`. -/
def ThreadPkt.isCurrentRun (pa : ℕ) (pkt : ThreadPkt) : Bool :=
  (currentVaRanges pkt.availBufSize pkt.bufs).any fun r => r.1 ≤ pa && pa < r.2

/-- The address of the last command word. -/
def ThreadPkt.lastWordPa (pkt : ThreadPkt) : ℕ := pkt.endPa - cmdqInstSize

/-- `cmdq_task_connect_buffer`: let the packet jump to `pa` at its end. -/
def cmdqTaskConnectBuffer (shift : ℕ) (mem : ℕ → ℕ) (pkt : ThreadPkt) (pa : ℕ) : ℕ → ℕ :=
  Function.update mem pkt.lastWordPa (linkJump shift pa)

/-- `CMDQ_MIN_AGE_VALUE`. -/
def cmdqMinAgeValue : ℕ := 5

/-- Age the packet of a task that is overtaken. -/
def Task.age (task : Task) : Task :=
  { task with pkt := { task.pkt with priority := u32 (task.pkt.priority + cmdqMinAgeValue) } }

/-- Where `cmdq_task_insert_into_thread` puts a task: the tasks before `prev_task`, `prev_task`, the
tasks after it, and whether the search stopped there. The list is in reverse, with the tasks already
passed in `after`. -/
def insertSearch (currPa priority : ℕ) (after : List Task) :
    List Task → Option (List Task × Task × List Task × Bool)
  | [] => none
  | prev :: before =>
    -- the task passed last is `next_task`: it ages when the search goes on
    let after := match after with
      | [] => []
      | next :: rest => next.age :: rest
    if prev.pkt.isCurrentRun currPa || priority ≤ prev.pkt.priority then
      some (before.reverse, prev, after, true)
    else match before with
      | [] => some ([], prev, after, false)
      | _ :: _ => insertSearch currPa priority (prev :: after) before

/-- The jumps that `cmdq_task_insert_into_thread` writes. The new task is linked to the one after it
only if the search stopped: off the front of the list, `next_task` and `prev_task` are the same. -/
def insertLinks (shift : ℕ) (mem : ℕ → ℕ) (prev task : Task) (after : List Task)
    (stopped : Bool) : ℕ → ℕ :=
  let mem := cmdqTaskConnectBuffer shift mem prev.pkt task.paBase
  match after, stopped with
  | next :: _, true => cmdqTaskConnectBuffer shift mem task.pkt next.paBase
  | _, _ => mem

/-- `cmdq_task_insert_into_thread` and the `list_add` after it. -/
def cmdqTaskInsertIntoThread (shift : ℕ) (task : Task) (s : Thread) : Thread :=
  match insertSearch s.pc task.pkt.priority [] s.taskBusyList.reverse with
  | none => s
  | some (before, prev, after, stopped) =>
    { s with
      mem := insertLinks shift s.mem prev task after stopped
      taskBusyList := before ++ prev :: task :: after }

/-- The end address of the last task, or the old value of the register. -/
def lastEndPa (tasks : List Task) (endAddr : ℕ) : ℕ :=
  match tasks.getLast? with
  | none => endAddr
  | some task => task.pkt.endPa

/-- The part of `cmdq_task_exec` for an empty list: reset the thread and start it with
the task. -/
def startThread (task : Task) (s : Thread) : Thread :=
  { s with
    clk := s.clk + 1
    endAddr := task.pkt.endPa
    pc := task.paBase
    enabled := true
    suspended := false
    taskBusyList := [task] }

/-- The part of `cmdq_task_exec` for a busy thread: at the boundary the thread is sent
to the task directly, otherwise the task is linked into the list. The thread stays
suspended during error handling. -/
def addToThread (shift : ℕ) (task : Task) (s : Thread) : Thread :=
  let s := if s.pc + cmdqInstSize = s.endAddr || s.pc = s.endAddr then
      { s with pc := task.paBase, taskBusyList := s.taskBusyList ++ [task] }
    else cmdqTaskInsertIntoThread shift task s
  { s with endAddr := lastEndPa s.taskBusyList s.endAddr, suspended := s.dirty }

/-- The packet as the client leaves it in memory, and the task allocated for it. -/
def submitTask (task : Task) (lastWord : ℕ) (s : Thread) : Thread :=
  { s with
    mem := Function.update s.mem task.pkt.lastWordPa lastWord
    allocated := s.allocated ++ [task] }

/-- `cmdq_task_exec`. The packet's last command word is `lastWord`; `ptr` is the allocated task, if
there is memory for it. -/
def cmdqTaskExec (shift : ℕ) (ptr : Option ℕ) (pkt : ThreadPkt) (lastWord : ℕ)
    (s : Thread) : Thread :=
  match pkt.bufs.head?, ptr with
  | none, _ => s
  | some _, none => s
  | some paBase, some ptr =>
    let task : Task :=
      { ptr := ptr, serial := s.allocated.length, paBase := paBase, pkt := pkt }
    let s := submitTask task lastWord s
    if s.taskBusyList.isEmpty then startThread task s else addToThread shift task s

/-- `cmdq_task_callback` for each of the tasks in turn. -/
def taskCallbacks (tasks : List Task) (s : Thread) : Thread :=
  { s with called := s.called ++ (tasks.filter (·.pkt.cb)).map (·.serial) }

/-- The loop of `cmdq_thread_irq_handler`: the tasks that are done, the tasks that
remain, and whether the current task failed. -/
def irqLoop (currPa : ℕ) (err : Bool) : List Task → List Task × List Task × Bool
  | [] => ([], [], false)
  | task :: tasks =>
    if task.pkt.isCurrentRun currPa then
      if currPa + cmdqInstSize = task.pkt.endPa then ([task], tasks, false)
      else if err then ([task], tasks, true)
      else ([], task :: tasks, false)
    else
      let (done, rest, failed) := irqLoop currPa err tasks
      (task :: done, rest, failed)

/-- `cmdq_thread_disable` and `cmdq_clk_disable`. -/
def threadOff (s : Thread) : Thread := { s with enabled := false, clk := s.clk - 1 }

/-- `cmdq_task_handle_error`: go on with the first task of the list. The thread is
resumed even if the caller has suspended it. -/
def cmdqTaskHandleError (s : Thread) : Thread :=
  match s.taskBusyList.head? with
  | none => cmdqThreadResume s
  | some task => cmdqThreadResume { s with pc := task.paBase }

/-- What a run of `cmdq_thread_irq_handler` is shown: whether the GCE is in use and the interrupt
status. -/
structure IrqInput where
  usage : Bool
  irqFlag : ℕ

/-- Whether the interrupt status has an error bit (`CMDQ_THR_IRQ_ERROR`). -/
def IrqInput.error (irq : IrqInput) : Bool := irq.irqFlag &&& 0x12 ≠ 0

/-- Whether the interrupt status has the done bit (`CMDQ_THR_IRQ_DONE`). -/
def IrqInput.done (irq : IrqInput) : Bool := irq.irqFlag &&& 0x1 ≠ 0

/-- The part of `cmdq_thread_irq_handler` that retires tasks. -/
def irqRetire (err : Bool) (s : Thread) : Thread :=
  let (done, rest, failed) := irqLoop s.pc err s.taskBusyList
  let s := taskCallbacks done { s with taskBusyList := rest }
  let s := if failed then cmdqTaskHandleError s else s
  if s.taskBusyList.isEmpty then threadOff s else s

/-- `cmdq_thread_irq_handler`. -/
def cmdqThreadIrqHandler (irq : IrqInput) (s : Thread) : Thread :=
  if !irq.usage || !s.enabled || !(irq.error || irq.done) then s
  else match s.taskBusyList with
    | task :: _ =>
      if task.pkt.loop then taskCallbacks [task] s
      else if s.dirty then s
      else irqRetire irq.error s
    | [] => if s.dirty then s else irqRetire irq.error s

/-- The loop of `cmdq_thread_handle_timeout_work`: the tasks ahead of the current one, and the rest.
The address is read into 32 bits. -/
def timeoutLoop (paCurr : ℕ) : List Task → List Task × List Task
  | [] => ([], [])
  | task :: tasks =>
    if task.pkt.isCurrentRun paCurr then ([], task :: tasks)
    else
      let (done, rest) := timeoutLoop paCurr tasks
      (task :: done, rest)

/-- The end of `cmdq_thread_handle_timeout_work`: restart at the first task, or turn
the thread off. -/
def timeoutRestart (s : Thread) : Thread :=
  match s.taskBusyList with
  | [] => threadOff (cmdqThreadResume s)
  | task :: _ => cmdqThreadResume { s with pc := task.paBase, enabled := true }

/-- `cmdq_thread_handle_timeout_work` up to where it drops the lock, or to its end if it does not.
`exceed` and `exceedAgain` are the outcomes of the two calls of `cmdq_thread_timeout_excceed`. -/
def cmdqThreadHandleTimeoutWork (exceed exceedAgain : Bool) (irq : IrqInput) (s : Thread) :
    Thread :=
  if s.timeoutTask.isSome || s.taskBusyList.isEmpty || !exceed then s
  else
    let s := cmdqThreadIrqHandler irq (cmdqThreadSuspend s)
    if s.taskBusyList.isEmpty then s
    else if !exceedAgain then cmdqThreadResume s
    else
      let (done, rest) := timeoutLoop (u32 s.pc) s.taskBusyList
      let s := taskCallbacks done { s with taskBusyList := rest }
      match rest with
      | [] => timeoutRestart s
      | task :: _ => { s with dirty := true, timeoutTask := some task.ptr }

/-- `cmdq_thread_handle_timeout_work` from the place where it takes the lock again. -/
def timeoutRelock (s : Thread) : Thread :=
  match s.timeoutTask with
  | none => s
  | some timeoutTask =>
    let s := { s with dirty := false, timeoutTask := none }
    match s.taskBusyList with
    | [] => timeoutRestart s
    | task :: tasks =>
      if task.ptr = timeoutTask then
        timeoutRestart (taskCallbacks [task] { s with taskBusyList := tasks })
      else timeoutRestart s

/-- The search of `cmdq_mbox_thread_remove_task`: the tasks before the first one with
the given packet, that task, and the tasks after it. -/
def removeSearch (pkt : ℕ) : List Task → Option (List Task × Task × List Task)
  | [] => none
  | task :: tasks =>
    if task.pkt.id = pkt then some ([], task, tasks)
    else (removeSearch pkt tasks).map fun r => (task :: r.1, r.2)

/-- The end of `cmdq_mbox_thread_remove_task`, when the task taken out was the current or the last
one. -/
def removeFinish (currTask lastTask : Bool) (s : Thread) : Thread :=
  match s.taskBusyList with
  | [] => threadOff (cmdqThreadResume s)
  | task :: tasks =>
    let s := if currTask then { s with pc := task.paBase } else s
    let s := if lastTask then { s with endAddr := lastEndPa (task :: tasks) s.endAddr } else s
    cmdqThreadResume s

/-- `cmdq_mbox_thread_remove_task`. -/
def cmdqMboxThreadRemoveTask (pkt : ℕ) (irq : IrqInput) (s : Thread) : Thread :=
  if s.taskBusyList.isEmpty then s
  else
    let s := cmdqThreadIrqHandler irq (cmdqThreadSuspend s)
    match removeSearch pkt s.taskBusyList with
    | none => cmdqThreadResume s
    | some (before, task, after) =>
      -- task during error handling, skip
      if before.isEmpty && s.dirty then s
      else
        removeFinish (task.pkt.isCurrentRun (u32 s.pc)) after.isEmpty
          (taskCallbacks [task] { s with taskBusyList := before ++ after })

/-- `cmdq_mbox_thread_stop`. -/
def cmdqMboxThreadStop (irq : IrqInput) (s : Thread) : Thread :=
  if s.taskBusyList.isEmpty then s
  else
    let s := cmdqThreadIrqHandler irq (cmdqThreadSuspend s)
    if s.taskBusyList.isEmpty then cmdqThreadResume s
    else threadOff (taskCallbacks s.taskBusyList { s with taskBusyList := [] })

/-- What can happen to a thread: the calls of the driver, in one or two locked sections each, and a
move of the engine. -/
inductive ThreadEvent where
  | exec (ptr : Option ℕ) (pkt : ThreadPkt) (lastWord : ℕ)
  | irq (irq : IrqInput)
  | timeout (exceed exceedAgain : Bool) (irq : IrqInput)
  | timeoutRelock
  | removeTask (pkt : ℕ) (irq : IrqInput)
  | stop (irq : IrqInput)
  | move (pc : ℕ)

/-- One step of a thread. -/
def threadStep (shift : ℕ) (s : Thread) : ThreadEvent → Thread
  | .exec ptr pkt lastWord => cmdqTaskExec shift ptr pkt lastWord s
  | .irq irq => cmdqThreadIrqHandler irq s
  | .timeout exceed exceedAgain irq => cmdqThreadHandleTimeoutWork exceed exceedAgain irq s
  | .timeoutRelock => Cmdq.timeoutRelock s
  | .removeTask pkt irq => cmdqMboxThreadRemoveTask pkt irq s
  | .stop irq => cmdqMboxThreadStop irq s
  | .move pc => if s.enabled && !s.suspended then { s with pc := pc } else s

section Fields

variable (tasks : List Task) (s : Thread)

@[simp] theorem cmdqThreadSuspend_taskBusyList :
    (cmdqThreadSuspend s).taskBusyList = s.taskBusyList := rfl

@[simp] theorem cmdqThreadResume_taskBusyList :
    (cmdqThreadResume s).taskBusyList = s.taskBusyList := rfl

@[simp] theorem taskCallbacks_taskBusyList :
    (taskCallbacks tasks s).taskBusyList = s.taskBusyList := rfl

end Fields

variable {currPa priority : ℕ} {rev after before rest : List Task}

/-- A packet of two commands in one buffer at `pa`. -/
def smallPkt (id pa : ℕ) : ThreadPkt where
  id := id
  bufs := [pa]
  availBufSize := 3824
  priority := 0
  loop := false
  cb := true

/-- The last command of a finalized packet: a jump to the address after it. -/
def endJump : ℕ := 0x1000000000000008

/-- No interrupt is pending while the GCE is in use. -/
def noIrq : IrqInput := { usage := true, irqFlag := 0 }

/-- A task times out, and the channel is stopped while its error callback runs. -/
def stoppedInTimeout : List ThreadEvent :=
  [.exec (some 1) (smallPkt 7 0x1000) endJump, .timeout true true noIrq, .stop noIrq,
    .timeoutRelock]

/-- A task without its priority, the one field of it that changes while it is queued. -/
def Task.unaged (task : Task) : Task :=
  { task with pkt := { task.pkt with priority := 0 } }

/-- The tasks passed by the search, once the last one of them has been aged. -/
def ageFirst : List Task → List Task
  | [] => []
  | next :: rest => next.age :: rest

theorem insertSearch_cons (currPa priority : ℕ) (after before : List Task) (prev : Task) :
    insertSearch currPa priority after (prev :: before) =
      if prev.pkt.isCurrentRun currPa || priority ≤ prev.pkt.priority then
        some (before.reverse, prev, ageFirst after, true)
      else match before with
        | [] => some ([], prev, ageFirst after, false)
        | _ :: _ => insertSearch currPa priority (prev :: ageFirst after) before := by
  cases after <;> rw [insertSearch.eq_def] <;> rfl

/-- The search stops at the first task that runs or has at least the priority, and ages those it
passes. -/
theorem insertSearch_spec {prev : Task} {stopped : Bool}
    (h : insertSearch currPa priority after rev = some (before, prev, rest, stopped)) :
    ∃ passed, rev.reverse = before ++ prev :: passed ∧
      rest = passed.map Task.age ++ ageFirst after ∧
      (∀ task ∈ passed, task.pkt.isCurrentRun currPa = false ∧ task.pkt.priority < priority) ∧
      (stopped = false → before = [] ∧ prev.pkt.isCurrentRun currPa = false ∧
        prev.pkt.priority < priority) := by
  induction rev generalizing after with
  | nil => cases h
  | cons cursor rev ih =>
    rw [insertSearch_cons] at h
    split_ifs at h with hstop
    · cases h
      exact ⟨[], by simp, by simp, by simp, by simp⟩
    · have hcursor : cursor.pkt.isCurrentRun currPa = false ∧ cursor.pkt.priority < priority := by
        simpa using hstop
      cases rev with
      | nil =>
        cases h
        exact ⟨[], by simp, by simp, by simp, fun _ => ⟨rfl, hcursor⟩⟩
      | cons next rev =>
        obtain ⟨passed, hrev, hrest, hpassed, hran⟩ := ih h
        refine ⟨passed ++ [cursor], ?_, ?_, ?_, hran⟩
        · rw [reverse_cons, hrev]
          simp
        · rw [hrest]
          simp [ageFirst]
        · intro task htask
          rcases mem_append.mp htask with hold | hnew
          · exact hpassed task hold
          · rw [mem_singleton.mp hnew]
            exact hcursor

theorem insertSearch_ne_none (hrev : rev ≠ []) :
    insertSearch currPa priority after rev ≠ none := by
  induction rev generalizing after with
  | nil => exact absurd rfl hrev
  | cons cursor rev ih =>
    rw [insertSearch_cons]
    split_ifs
    · simp
    · cases rev with
      | nil => simp
      | cons next rev => exact ih (cons_ne_nil _ _)

theorem irqLoop_append (currPa : ℕ) (err : Bool) (tasks : List Task) :
    (irqLoop currPa err tasks).1 ++ (irqLoop currPa err tasks).2.1 = tasks := by
  induction tasks with
  | nil => rfl
  | cons task tasks ih =>
    simp only [irqLoop]
    split_ifs
    · rfl
    · rfl
    · rfl
    · simpa using ih

theorem timeoutLoop_append (paCurr : ℕ) (tasks : List Task) :
    (timeoutLoop paCurr tasks).1 ++ (timeoutLoop paCurr tasks).2 = tasks := by
  induction tasks with
  | nil => rfl
  | cons task tasks ih =>
    simp only [timeoutLoop]
    split_ifs
    · rfl
    · simpa using ih

theorem removeSearch_eq {pkt : ℕ} {tasks : List Task} {task : Task}
    (h : removeSearch pkt tasks = some (before, task, after)) :
    tasks = before ++ task :: after := by
  induction tasks generalizing before with
  | nil => cases h
  | cons first tasks ih =>
    simp only [removeSearch] at h
    split_ifs at h
    · cases h
      rfl
    · obtain ⟨⟨before', rest⟩, hrest, heq⟩ := Option.map_eq_some_iff.mp h
      cases heq
      rw [ih hrest]
      rfl

/-- A submission starts the thread, adds to it, or does nothing. -/
theorem cmdqTaskExec_cases (shift : ℕ) (ptr : Option ℕ) (pkt : ThreadPkt) (lastWord : ℕ)
    (s : Thread) :
    cmdqTaskExec shift ptr pkt lastWord s = s ∨
    ∃ task : Task, task.pkt = pkt ∧ task.serial = s.allocated.length ∧
      pkt.bufs.head? = some task.paBase ∧
      ((s.taskBusyList = [] ∧ cmdqTaskExec shift ptr pkt lastWord s =
          startThread task (submitTask task lastWord s)) ∨
        (s.taskBusyList ≠ [] ∧ cmdqTaskExec shift ptr pkt lastWord s =
          addToThread shift task (submitTask task lastWord s))) := by
  unfold cmdqTaskExec
  cases hbase : pkt.bufs.head? with
  | none => exact Or.inl rfl
  | some paBase =>
    cases ptr with
    | none => exact Or.inl rfl
    | some ptr =>
      refine Or.inr ⟨{ ptr := ptr, serial := s.allocated.length, paBase := paBase, pkt := pkt },
        rfl, rfl, rfl, ?_⟩
      by_cases hempty : s.taskBusyList = []
      · exact Or.inl ⟨hempty, if_pos (by simp [submitTask, hempty])⟩
      · exact Or.inr ⟨hempty, if_neg (by simp [submitTask, hempty])⟩

/-- How a task enters the list: behind `before`, in front of the tasks it overtakes, which have
a lower priority and are not running. -/
structure Entered (currPa : ℕ) (s s' : Thread) (task : Task) (before passed : List Task) :
    Prop where
  list : s.taskBusyList = before ++ passed
  list' : s'.taskBusyList = before ++ task :: passed.map Task.age
  allocated : s'.allocated = s.allocated ++ [task]
  serial : task.serial = s.allocated.length
  called : s'.called = s.called
  clk : s'.clk = if s.taskBusyList = [] then s.clk + 1 else s.clk
  overtaken : ∀ passed' ∈ passed, passed'.pkt.isCurrentRun currPa = false ∧
    passed'.pkt.priority < task.pkt.priority

theorem Entered.mem_cases {s s' : Thread} {task queued : Task} {passed : List Task}
    (h : Entered currPa s s' task before passed) (hqueued : queued ∈ s'.taskBusyList) :
    queued = task ∨ ∃ old ∈ s.taskBusyList, old.serial = queued.serial ∧
      (old ∈ before ∧ queued = old ∨ old ∈ passed ∧ queued = old.age) := by
  rw [h.list', mem_append, mem_cons, mem_map] at hqueued
  rw [h.list]
  rcases hqueued with hold | rfl | ⟨old, hold, rfl⟩
  · exact Or.inr ⟨queued, mem_append_left _ hold, rfl, Or.inl ⟨hold, rfl⟩⟩
  · exact Or.inl rfl
  · exact Or.inr ⟨old, mem_append_right _ hold, rfl, Or.inr ⟨hold, rfl⟩⟩

/-- A task that is added goes behind those that are not passed. -/
theorem addToThread_entered (shift lastWord : ℕ) {task : Task} {s : Thread}
    (hlist : s.taskBusyList ≠ []) (hserial : task.serial = s.allocated.length) :
    ∃ before passed,
      Entered s.pc s (addToThread shift task (submitTask task lastWord s)) task before passed := by
  unfold addToThread cmdqTaskInsertIntoThread
  split_ifs
  · exact ⟨s.taskBusyList, [], by simp, rfl, rfl, hserial, rfl, (if_neg hlist).symm, by simp⟩
  · cases hsearch : insertSearch (submitTask task lastWord s).pc task.pkt.priority []
      (submitTask task lastWord s).taskBusyList.reverse with
    | none => exact absurd hsearch (insertSearch_ne_none (reverse_ne_nil_iff.mpr hlist))
    | some found =>
      obtain ⟨before, prev, rest, stopped⟩ := found
      obtain ⟨passed, hrev, hrest, hpassed, -⟩ := insertSearch_spec hsearch
      rw [reverse_reverse] at hrev
      refine ⟨before ++ [prev], passed, hrev.trans (by simp), ?_, rfl, hserial, rfl,
        (if_neg hlist).symm, hpassed⟩
      simp [hrest, ageFirst]

/-- Either nothing happens, or a task for the packet enters the list. -/
theorem cmdqTaskExec_entered (shift : ℕ) (ptr : Option ℕ) (pkt : ThreadPkt) (lastWord : ℕ)
    (s : Thread) :
    cmdqTaskExec shift ptr pkt lastWord s = s ∨ ∃ task before passed, task.pkt = pkt ∧
      Entered s.pc s (cmdqTaskExec shift ptr pkt lastWord s) task before passed := by
  rcases cmdqTaskExec_cases shift ptr pkt lastWord s with
    hsame | ⟨task, hpkt, hserial, -, ⟨hnil, hstart⟩ | ⟨hbusy, hadd⟩⟩
  · exact Or.inl hsame
  · rw [hstart]
    exact Or.inr ⟨task, [], [], hpkt, hnil, rfl, rfl, hserial, rfl, (if_pos hnil).symm, by simp⟩
  · rw [hadd]
    obtain ⟨before, passed, hentered⟩ := addToThread_entered shift lastWord hbusy hserial
    exact Or.inr ⟨task, before, passed, hpkt, hentered⟩

/-- What an interrupt can do. -/
theorem cmdqThreadIrqHandler_cases (irq : IrqInput) (s : Thread) :
    cmdqThreadIrqHandler irq s = s ∨
    (∃ task tasks, s.taskBusyList = task :: tasks ∧ task.pkt.loop = true ∧
      cmdqThreadIrqHandler irq s = taskCallbacks [task] s) ∨
    (s.enabled = true ∧ s.dirty = false ∧ cmdqThreadIrqHandler irq s = irqRetire irq.error s) := by
  unfold cmdqThreadIrqHandler
  by_cases hskip : (!irq.usage || !s.enabled || !(irq.error || irq.done)) = true
  · exact Or.inl (if_pos hskip)
  rw [if_neg hskip]
  have henabled : s.enabled = true := by
    by_contra hoff
    exact hskip (by simp [hoff])
  cases hlist : s.taskBusyList with
  | nil =>
    dsimp only
    split_ifs with hdirty
    · exact Or.inl rfl
    · exact Or.inr (Or.inr ⟨henabled, by simpa using hdirty, rfl⟩)
  | cons task tasks =>
    dsimp only
    split_ifs with hloop hdirty
    · exact Or.inr (Or.inl ⟨task, tasks, rfl, hloop, rfl⟩)
    · exact Or.inl rfl
    · exact Or.inr (Or.inr ⟨henabled, by simpa using hdirty, rfl⟩)

/-- What the timeout can do up to where it drops the lock. -/
theorem cmdqThreadHandleTimeoutWork_cases (exceed exceedAgain : Bool) (irq : IrqInput)
    (s : Thread) :
    cmdqThreadHandleTimeoutWork exceed exceedAgain irq s = s ∨
    ∃ s1, s1 = cmdqThreadIrqHandler irq (cmdqThreadSuspend s) ∧ s.taskBusyList ≠ [] ∧
      s.timeoutTask = none ∧
      ((s1.taskBusyList = [] ∧ cmdqThreadHandleTimeoutWork exceed exceedAgain irq s = s1) ∨
        cmdqThreadHandleTimeoutWork exceed exceedAgain irq s = cmdqThreadResume s1 ∨
        ∃ done rest, s1.taskBusyList ≠ [] ∧ exceedAgain = true ∧
          timeoutLoop (u32 s1.pc) s1.taskBusyList = (done, rest) ∧
          ((rest = [] ∧ cmdqThreadHandleTimeoutWork exceed exceedAgain irq s =
              timeoutRestart (taskCallbacks done { s1 with taskBusyList := [] })) ∨
            ∃ task tasks, rest = task :: tasks ∧
              cmdqThreadHandleTimeoutWork exceed exceedAgain irq s =
                { taskCallbacks done { s1 with taskBusyList := task :: tasks } with
                  dirty := true, timeoutTask := some task.ptr })) := by
  unfold cmdqThreadHandleTimeoutWork
  by_cases hskip : (s.timeoutTask.isSome || s.taskBusyList.isEmpty || !exceed) = true
  · exact Or.inl (if_pos hskip)
  have hbusy : s.taskBusyList ≠ [] := by
    intro hnil
    exact hskip (by simp [hnil])
  have hidle : s.timeoutTask = none := by
    by_contra hsome
    exact hskip (by simp [Option.isSome_iff_ne_none.mpr hsome])
  rw [if_neg hskip]
  refine Or.inr ⟨_, rfl, hbusy, hidle, ?_⟩
  generalize cmdqThreadIrqHandler irq (cmdqThreadSuspend s) = s1
  by_cases hempty : s1.taskBusyList = []
  · exact Or.inl ⟨hempty, if_pos (by simpa using hempty)⟩
  refine Or.inr ?_
  cases exceedAgain with
  | false => exact Or.inl (by simp [hempty])
  | true =>
    refine Or.inr ⟨_, _, hempty, rfl, rfl, ?_⟩
    dsimp only
    rw [if_neg (by simpa using hempty), if_neg (by simp)]
    cases (timeoutLoop (u32 s1.pc) s1.taskBusyList).2 with
    | nil => exact Or.inl ⟨rfl, rfl⟩
    | cons task tasks => exact Or.inr ⟨task, tasks, rfl, rfl⟩

theorem timeoutRelock_cases (s : Thread) :
    timeoutRelock s = s ∨
    (s.timeoutTask.isSome ∧ (∀ task ∈ s.taskBusyList.head?, s.timeoutTask ≠ some task.ptr) ∧
      timeoutRelock s = timeoutRestart { s with dirty := false, timeoutTask := none }) ∨
    ∃ task tasks, s.taskBusyList = task :: tasks ∧ s.timeoutTask = some task.ptr ∧
      timeoutRelock s = timeoutRestart (taskCallbacks [task]
        { s with dirty := false, timeoutTask := none, taskBusyList := tasks }) := by
  unfold timeoutRelock
  cases hptr : s.timeoutTask with
  | none => exact Or.inl rfl
  | some ptr =>
    refine Or.inr ?_
    cases hlist : s.taskBusyList with
    | nil => exact Or.inl ⟨rfl, by simp, by simp⟩
    | cons task tasks =>
      by_cases heq : task.ptr = ptr
      · exact Or.inr ⟨task, tasks, rfl, by rw [heq], by simp [heq]⟩
      · refine Or.inl ⟨rfl, ?_, by simp [heq]⟩
        intro first hfirst hsame
        obtain rfl : task = first := by simpa using hfirst
        exact heq (Option.some.inj hsame).symm

/-- What the removal of a task can do. -/
theorem cmdqMboxThreadRemoveTask_cases (pkt : ℕ) (irq : IrqInput) (s : Thread) :
    cmdqMboxThreadRemoveTask pkt irq s = s ∨
    ∃ s1, s1 = cmdqThreadIrqHandler irq (cmdqThreadSuspend s) ∧ s.taskBusyList ≠ [] ∧
      ((removeSearch pkt s1.taskBusyList = none ∧
          cmdqMboxThreadRemoveTask pkt irq s = cmdqThreadResume s1) ∨
        ∃ before task after, removeSearch pkt s1.taskBusyList = some (before, task, after) ∧
          ((before = [] ∧ s1.dirty = true ∧ cmdqMboxThreadRemoveTask pkt irq s = s1) ∨
            ((before = [] → s1.dirty = false) ∧ cmdqMboxThreadRemoveTask pkt irq s =
              removeFinish (task.pkt.isCurrentRun (u32 s1.pc)) after.isEmpty
                (taskCallbacks [task] { s1 with taskBusyList := before ++ after })))) := by
  unfold cmdqMboxThreadRemoveTask
  by_cases hempty : s.taskBusyList.isEmpty = true
  · exact Or.inl (if_pos hempty)
  have hbusy : s.taskBusyList ≠ [] := by simpa using hempty
  rw [if_neg hempty]
  refine Or.inr ⟨_, rfl, hbusy, ?_⟩
  generalize cmdqThreadIrqHandler irq (cmdqThreadSuspend s) = s1
  cases hfound : removeSearch pkt s1.taskBusyList with
  | none => exact Or.inl ⟨rfl, by simp [hfound]⟩
  | some found =>
    obtain ⟨before, task, after⟩ := found
    refine Or.inr ⟨before, task, after, rfl, ?_⟩
    by_cases hskip : (before.isEmpty && s1.dirty) = true
    · have hboth : before = [] ∧ s1.dirty = true := by simpa using hskip
      exact Or.inl ⟨hboth.1, hboth.2, by simp only [hfound]; rw [if_pos hskip]⟩
    · refine Or.inr ⟨?_, by simp only [hfound]; rw [if_neg hskip]⟩
      intro hbefore
      simpa [hbefore] using hskip

theorem cmdqMboxThreadStop_cases (irq : IrqInput) (s : Thread) :
    cmdqMboxThreadStop irq s = s ∨
    ∃ s1, s1 = cmdqThreadIrqHandler irq (cmdqThreadSuspend s) ∧
      (cmdqMboxThreadStop irq s = cmdqThreadResume s1 ∨
        (s1.taskBusyList ≠ [] ∧ cmdqMboxThreadStop irq s =
          threadOff (taskCallbacks s1.taskBusyList { s1 with taskBusyList := [] }))) := by
  unfold cmdqMboxThreadStop
  by_cases hempty : s.taskBusyList.isEmpty = true
  · exact Or.inl (if_pos hempty)
  rw [if_neg hempty]
  refine Or.inr ⟨_, rfl, ?_⟩
  generalize cmdqThreadIrqHandler irq (cmdqThreadSuspend s) = s1
  by_cases hafter : s1.taskBusyList.isEmpty = true
  · exact Or.inl (if_pos hafter)
  · exact Or.inr ⟨by simpa using hafter, if_neg hafter⟩

/-- What an assertion `I` on a thread is kept by; `J` is for the moment when tasks have been taken
off the list. -/
structure KeptBy (I J : Thread → Prop) : Prop where
  congr {s s' : Thread} : I s → s'.taskBusyList = s.taskBusyList → s'.clk = s.clk →
    s'.enabled = s.enabled → s'.called = s.called → s'.allocated = s.allocated → I s'
  pending {s s' : Thread} : J s → s'.taskBusyList = s.taskBusyList → s'.clk = s.clk →
    s'.called = s.called → s'.allocated = s.allocated → J s'
  loop {s : Thread} {task : Task} : I s → task ∈ s.taskBusyList → task.pkt.loop = true →
    I (taskCallbacks [task] s)
  takeOff {s : Thread} {done rest : List Task} : I s → s.enabled = true ∨ s.taskBusyList ≠ [] →
    s.taskBusyList.Perm (done ++ rest) → J (taskCallbacks done { s with taskBusyList := rest })
  listed {s : Thread} : J s → s.taskBusyList ≠ [] → I s
  off {s : Thread} : J s → s.taskBusyList = [] → I (threadOff s)

namespace KeptBy

variable {I J : Thread → Prop} {s : Thread} (k : KeptBy I J)
include k

theorem restart (h : J s) : I (timeoutRestart s) := by
  unfold timeoutRestart
  cases hlist : s.taskBusyList with
  | nil => exact k.off (k.pending h rfl rfl rfl rfl) hlist
  | cons task tasks => exact k.listed (k.pending h hlist.symm rfl rfl rfl) (by simp)

theorem finish (h : J s) (currTask lastTask : Bool) : I (removeFinish currTask lastTask s) := by
  unfold removeFinish
  cases hlist : s.taskBusyList with
  | nil => exact k.off (k.pending h rfl rfl rfl rfl) hlist
  | cons task tasks =>
    have hne : s.taskBusyList ≠ [] := by simp [hlist]
    cases currTask
    · cases lastTask <;> exact k.listed (k.pending h rfl rfl rfl rfl) hne
    · cases lastTask <;> exact k.listed (k.pending h hlist.symm rfl rfl rfl) (by simp)

variable (h : I s)
include h

theorem retire (henabled : s.enabled = true) (err : Bool) : I (irqRetire err s) := by
  have hsplit := irqLoop_append s.pc err s.taskBusyList
  unfold irqRetire
  generalize irqLoop s.pc err s.taskBusyList = result at hsplit
  obtain ⟨done, rest, failed⟩ := result
  have hdone := k.takeOff h (Or.inl henabled) (.of_eq hsplit.symm)
  dsimp only at hdone ⊢
  generalize taskCallbacks done { s with taskBusyList := rest } = s1 at hdone
  have hleft : J (if failed = true then cmdqTaskHandleError s1 else s1) := by
    unfold cmdqTaskHandleError
    split_ifs
    · split <;> exact k.pending hdone rfl rfl rfl rfl
    · exact hdone
  generalize (if failed = true then cmdqTaskHandleError s1 else s1) = left at hleft
  split_ifs with hempty
  · exact k.off hleft (by simpa using hempty)
  · exact k.listed hleft (by simpa using hempty)

theorem irqHandler (irq : IrqInput) : I (cmdqThreadIrqHandler irq s) := by
  rcases cmdqThreadIrqHandler_cases irq s with
    hsame | ⟨task, tasks, hlist, hloop, hcall⟩ | ⟨henabled, -, hretire⟩
  · rw [hsame]
    exact h
  · rw [hcall]
    exact k.loop h (by simp [hlist]) hloop
  · rw [hretire]
    exact k.retire h henabled irq.error

theorem irqSuspended (irq : IrqInput) : I (cmdqThreadIrqHandler irq (cmdqThreadSuspend s)) :=
  k.irqHandler (s := cmdqThreadSuspend s) (k.congr h rfl rfl rfl rfl rfl) irq

theorem timeout (exceed exceedAgain : Bool) (irq : IrqInput) :
    I (cmdqThreadHandleTimeoutWork exceed exceedAgain irq s) := by
  have hirq := k.irqSuspended h irq
  rcases cmdqThreadHandleTimeoutWork_cases exceed exceedAgain irq s with hsame |
    ⟨s1, rfl, -, -, ⟨-, honly⟩ | hresume | ⟨done, rest, hlist, -, hloop, hend⟩⟩
  · rw [hsame]
    exact h
  · rw [honly]
    exact hirq
  · rw [hresume]
    exact k.congr hirq rfl rfl rfl rfl rfl
  · generalize cmdqThreadIrqHandler irq (cmdqThreadSuspend s) = s1 at hirq hlist hloop hend
    have hsplit := timeoutLoop_append (u32 s1.pc) s1.taskBusyList
    rw [hloop] at hsplit
    have hoff := k.takeOff hirq (Or.inr hlist) (.of_eq hsplit.symm)
    rcases hend with ⟨rfl, hrestart⟩ | ⟨task, tasks, rfl, hwait⟩
    · rw [hrestart]
      exact k.restart hoff
    · rw [hwait]
      exact k.congr (k.listed hoff (by simp)) rfl rfl rfl rfl rfl

theorem relock (hrestart : s.timeoutTask.isSome →
    I (timeoutRestart { s with dirty := false, timeoutTask := none })) : I (timeoutRelock s) := by
  rcases timeoutRelock_cases s with hsame | ⟨hptr, -, hend⟩ | ⟨task, tasks, hlist, -, hdone⟩
  · rw [hsame]
    exact h
  · rw [hend]
    exact hrestart hptr
  · have hclean : I { s with dirty := false, timeoutTask := none } :=
      k.congr h rfl rfl rfl rfl rfl
    rw [hdone]
    exact k.restart (k.takeOff hclean (Or.inr (by simp [hlist])) (by simp [hlist]))

theorem removeTask (pkt : ℕ) (irq : IrqInput) : I (cmdqMboxThreadRemoveTask pkt irq s) := by
  have hirq := k.irqSuspended h irq
  rcases cmdqMboxThreadRemoveTask_cases pkt irq s with hsame | ⟨s1, rfl, -, ⟨-, hresume⟩ |
    ⟨before, task, after, hfound, ⟨-, -, hskip⟩ | ⟨-, hremove⟩⟩⟩
  · rw [hsame]
    exact h
  · rw [hresume]
    exact k.congr hirq rfl rfl rfl rfl rfl
  · rw [hskip]
    exact hirq
  · have hlist := removeSearch_eq hfound
    rw [hremove]
    exact k.finish (k.takeOff hirq (Or.inr (by simp [hlist])) (hlist ▸ perm_middle)) _ _

theorem stop (irq : IrqInput) : I (cmdqMboxThreadStop irq s) := by
  have hirq := k.irqSuspended h irq
  rcases cmdqMboxThreadStop_cases irq s with hsame | ⟨s1, rfl, hresume | ⟨hlist, hstop⟩⟩
  · rw [hsame]
    exact h
  · rw [hresume]
    exact k.congr hirq rfl rfl rfl rfl rfl
  · rw [hstop]
    exact k.off (k.takeOff hirq (Or.inr hlist) (.of_eq (append_nil _).symm)) rfl

/-- A step keeps the assertion, if starting a task and restarting without one do. -/
theorem step (shift : ℕ) (e : ThreadEvent)
    (hexec : ∀ ptr pkt lastWord, I (cmdqTaskExec shift ptr pkt lastWord s))
    (hrestart : e = .timeoutRelock → s.timeoutTask.isSome →
      I (timeoutRestart { s with dirty := false, timeoutTask := none })) :
    I (threadStep shift s e) := by
  cases e with
  | exec ptr pkt lastWord => exact hexec ptr pkt lastWord
  | irq irq => exact k.irqHandler h irq
  | timeout exceed exceedAgain irq => exact k.timeout h exceed exceedAgain irq
  | timeoutRelock => exact k.relock h (hrestart rfl)
  | removeTask pkt irq => exact k.removeTask h pkt irq
  | stop irq => exact k.stop h irq
  | move pc =>
    unfold threadStep
    split_ifs
    · exact k.congr h rfl rfl rfl rfl rfl
    · exact h

end KeptBy

end Mt8169.Cmdq
