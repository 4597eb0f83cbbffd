import Mt8169.Cmdq.ThreadMemory
import Mt8169.Lib.Runs
import Mathlib.Data.List.TakeWhile

/-!
# The jump chain of a GCE thread

The queued packets of a thread are linked: the last command word of a packet is an absolute jump to
the next one. The chain is kept by every run in which only the first task is removed, and in which a
new task overtakes all others only while the engine is in a queued task.
-/

namespace Mt8169.Cmdq

open MachineInt Runs List Option Bool

/-- Where the last command word of a task's packet jumps to, if it is an absolute jump. -/
def Task.finalJump (shift : ℕ) (mem : ℕ → ℕ) (task : Task) : Option ℕ :=
  jumpTarget shift (mem task.pkt.lastWordPa)

/-- The last command word of a task's packet jumps to the next task. -/
def LinkedTo (shift : ℕ) (mem : ℕ → ℕ) (task next : Task) : Prop :=
  task.finalJump shift mem = some next.paBase

/-- The engine is at the end, or has passed on to one of the given tasks. -/
def Thread.PassedTo (s : Thread) (later : List Task) : Prop :=
  s.pc = s.endAddr ∨ ∃ task ∈ later, task.pkt.isCurrentRun s.pc = true

/-- The chain of a thread is in order: each task that the engine has still to pass is linked to the
next one, final jumps lead to queued tasks, and END is the end of the last task. -/
structure ChainOk (shift : ℕ) (s : Thread) : Prop where
  linked : ∀ before task next after, s.taskBusyList = before ++ task :: next :: after →
    s.PassedTo (next :: after) ∨ LinkedTo shift s.mem task next
  target_queued : ∀ task ∈ s.taskBusyList, ∀ pa, task.finalJump shift s.mem = some pa →
    ∃ next ∈ s.taskBusyList, next.paBase = pa
  endAddr_eq : ∀ task, s.taskBusyList.getLast? = some task → s.endAddr = task.pkt.endPa

/-- The packet of a `cmdq_task_exec`: its pages are neither those of a queued packet nor where the
engine is, and it ends in no absolute jump but to its own start. -/
structure ClientPkt (shift : ℕ) (s : Thread) (pkt : ThreadPkt) (lastWord : ℕ) : Prop where
  wf : ∀ paBase, pkt.bufs.head? = some paBase → PktWf shift pkt paBase
  apart : ∀ task ∈ s.taskBusyList, task.pkt.Apart pkt
  pc_outside : s.taskBusyList ≠ [] → ¬pkt.InPages s.pc
  lastWord : ∀ pa, jumpTarget shift lastWord = some pa → pkt.bufs.head? = some pa

/-- The search of `cmdq_task_insert_into_thread` is not made, or a task stops it, if the list has
several tasks. -/
def SearchStops (s : Thread) (pkt : ThreadPkt) : Prop :=
  s.pc + cmdqInstSize = s.endAddr ∨ s.pc = s.endAddr ∨ s.taskBusyList.length ≤ 1 ∨
    ∃ task ∈ s.taskBusyList, task.pkt.isCurrentRun s.pc = true ∨ pkt.priority ≤ task.pkt.priority

/-- The state in which `cmdq_mbox_thread_remove_task` looks for the task. -/
def removalState (irq : IrqInput) (s : Thread) : Thread :=
  cmdqThreadIrqHandler irq (cmdqThreadSuspend s)

/-- A removal finds the first task, or nothing while no task is timed out. Unless the task
is skipped, the engine is in a queued task or at the end. -/
def RemovesFirst (pkt : ℕ) (irq : IrqInput) (s : Thread) : Prop :=
  match removeSearch pkt (removalState irq s).taskBusyList with
  | none => s.dirty = false
  | some (before, _, _) => before = [] ∧
    (s.dirty = false → (removalState irq s).PassedTo (removalState irq s).taskBusyList)

/-- The engine executes the queued packets: within a packet it moves as the commands say, from its
last command it follows the jump, if any, and at the end it waits. -/
def EngineMoves (shift : ℕ) (s : Thread) (pc : ℕ) : Prop :=
  let followed := (jumpTarget shift (s.mem s.pc)).getD (s.pc + cmdqInstSize)
  (∃ task ∈ s.taskBusyList, task.pkt.isCurrentRun s.pc = true ∧
    (task.pkt.isCurrentRun pc = true ∨ (s.pc = task.pkt.lastWordPa ∧ pc = followed))) ∨
  ((∀ task ∈ s.taskBusyList, task.pkt.isCurrentRun s.pc = false) ∧
    ((s.pc = s.endAddr ∧ pc = s.pc) ∨ (s.pc ≠ s.endAddr ∧ pc = followed)))

/-- The steps of a run that keeps the chain. The timeout work does not go on after an
interrupt with an error, which restarts the timer. -/
def ChainStep (shift : ℕ) (s : Thread) : ThreadEvent → Prop
  | .exec _ pkt lastWord => ClientPkt shift s pkt lastWord ∧ SearchStops s pkt
  | .irq _ => True
  | .timeout _ exceedAgain irq => irq.error = true → exceedAgain = false
  | .timeoutRelock => True
  | .removeTask pkt irq => RemovesFirst pkt irq s
  | .stop _ => False
  | .move pc => EngineMoves shift s pc

/-- The final jump of a task leads at most to its own start or to the next task. -/
def MayJump (shift : ℕ) (mem : ℕ → ℕ) (task next : Task) : Prop :=
  ∀ pa, task.finalJump shift mem = some pa → pa = task.paBase ∨ pa = next.paBase

/-- The tasks of a queue from the one on that the engine is in. -/
def onward (pc : ℕ) (queue : List Task) : List Task :=
  queue.dropWhile fun task => !task.pkt.isCurrentRun pc

/-- The list of a thread without the age of the tasks, on which the chain does not depend. -/
def Thread.queue (s : Thread) : List Task := s.taskBusyList.map Task.unaged

/-- The packets of a queue are separate, and END and the final jumps fit the queue. -/
structure Queued (shift : ℕ) (mem : ℕ → ℕ) (endAddr : ℕ) (queue : List Task) : Prop where
  wf : ∀ task ∈ queue, PktWf shift task.pkt task.paBase
  apart : queue.Pairwise fun task task' => task.pkt.Apart task'.pkt
  jumps : queue.IsChain (MayJump shift mem)
  last : ∀ task ∈ queue.getLast?, endAddr = task.pkt.endPa ∧
    ∀ pa, task.finalJump shift mem = some pa → pa = task.paBase

/-- The engine is at the last command of a task that has been retired, which leads to the queue. -/
structure Leaving (shift : ℕ) (mem : ℕ → ℕ) (pc : ℕ) (queue : List Task) : Prop where
  outside : ∀ task ∈ queue, ¬task.pkt.InPages pc
  pc_fits : queue ≠ [] → u32 pc = pc
  links : queue.IsChain (LinkedTo shift mem)
  next : ∀ task ∈ queue.head?, jumpTarget shift (mem pc) = some task.paBase

/-- Where the engine is, and which part of the chain is ahead of it. -/
structure Placed (shift : ℕ) (mem : ℕ → ℕ) (pc endAddr : ℕ) (queue : List Task) : Prop where
  links : (onward pc queue).IsChain (LinkedTo shift mem)
  between : onward pc queue = [] → pc = endAddr ∨ Leaving shift mem pc queue

/-- The engine is at the last command of the queue or behind it. -/
def Thread.AtBoundary (s : Thread) : Prop := s.pc + cmdqInstSize = s.endAddr ∨ s.pc = s.endAddr

/-- While the timeout work has dropped the lock, the thread is suspended with the timed out task
first and the tasks behind it linked. -/
structure Window (shift : ℕ) (s : Thread) (ptr : ℕ) : Prop where
  dirty : s.dirty = true
  suspended : s.suspended = true
  list : ∃ task tasks, s.queue = task :: tasks ∧ task.ptr = ptr ∧
    tasks.IsChain (LinkedTo shift s.mem) ∧ (s.AtBoundary → tasks = [])

/-- The invariant behind `ChainOk`. -/
structure ChainInv (shift : ℕ) (s : Thread) : Prop where
  queued : Queued shift s.mem s.endAddr s.queue
  placed : Placed shift s.mem s.pc s.endAddr s.queue
  window : ∀ ptr, s.timeoutTask = some ptr → Window shift s ptr

variable {shift pc pa endAddr : ℕ} {mem mem' : ℕ → ℕ} {before after tasks queue : List Task}
  {task prev : Task} {irq : IrqInput}

theorem onward_cons_of_running (hrun : task.pkt.isCurrentRun pc = true) :
    onward pc (task :: tasks) = task :: tasks := by
  simp [onward, hrun]

theorem onward_cons_of_not_running (hrun : task.pkt.isCurrentRun pc = false) :
    onward pc (task :: tasks) = onward pc tasks := by
  simp [onward, hrun]

theorem onward_eq_nil :
    onward pc queue = [] ↔ ∀ task ∈ queue, task.pkt.isCurrentRun pc = false := by
  simp [onward, dropWhile_eq_nil_iff]

theorem onward_append (pc : ℕ) (before after : List Task) :
    onward pc (before ++ after) =
      if (onward pc before).isEmpty then onward pc after else onward pc before ++ after :=
  dropWhile_append ..

/-- The engine is in one of the tasks, or in none. -/
theorem onward_cases (pc : ℕ) (queue : List Task) :
    onward pc queue = [] ∨ ∃ before task after, onward pc queue = task :: after ∧
      queue = before ++ task :: after ∧ task.pkt.isCurrentRun pc = true := by
  induction queue with
  | nil => exact Or.inl rfl
  | cons first queue ih =>
    cases hrun : first.pkt.isCurrentRun pc with
    | true => exact Or.inr ⟨[], first, queue, onward_cons_of_running hrun, rfl, hrun⟩
    | false =>
      rw [onward_cons_of_not_running hrun]
      rcases ih with hnil | ⟨before, task, after, honward, hqueue, hcurrent⟩
      · exact Or.inl hnil
      · exact Or.inr ⟨first :: before, task, after, honward, by rw [hqueue]; rfl, hcurrent⟩

theorem onward_concat (pc : ℕ) (before : List Task) (task : Task) :
    onward pc (before ++ [task]) = [] ∨
      ∃ front, onward pc (before ++ [task]) = front ++ [task] := by
  rw [onward_append]
  split_ifs
  · cases hrun : task.pkt.isCurrentRun pc with
    | true => exact Or.inr ⟨[], onward_cons_of_running hrun⟩
    | false => exact Or.inl (onward_cons_of_not_running hrun)
  · exact Or.inr ⟨_, rfl⟩

theorem onward_unaged (pc : ℕ) (tasks : List Task) :
    onward pc (tasks.map Task.unaged) = (onward pc tasks).map Task.unaged := dropWhile_map ..

/-- What the interrupt handler leaves is the queue from the current task on. -/
theorem irqLoop_onward (pc : ℕ) (err : Bool) (tasks : List Task) :
    (irqLoop pc err tasks).2 = match onward pc tasks with
      | [] => ([], false)
      | task :: after =>
        if pc + cmdqInstSize = task.pkt.endPa then (after, false)
        else if err then (after, true) else (task :: after, false) := by
  induction tasks with
  | nil => rfl
  | cons task tasks ih =>
    cases hrun : task.pkt.isCurrentRun pc with
    | true =>
      rw [onward_cons_of_running hrun, irqLoop, if_pos hrun]
      dsimp only
      split_ifs <;> rfl
    | false =>
      rw [onward_cons_of_not_running hrun, ← ih, irqLoop, if_neg (by simp [hrun])]

theorem timeoutLoop_onward (pc : ℕ) (tasks : List Task) :
    (timeoutLoop pc tasks).2 = onward pc tasks := by
  induction tasks with
  | nil => rfl
  | cons task tasks ih =>
    cases hrun : task.pkt.isCurrentRun pc with
    | true => rw [onward_cons_of_running hrun, timeoutLoop, if_pos hrun]
    | false => rw [onward_cons_of_not_running hrun, ← ih, timeoutLoop, if_neg (by simp [hrun])]

theorem isChain_insert {α : Type*} {R R' : α → α → Prop} {before after : List α} {prev task : α}
    (h : (before ++ prev :: after).IsChain R)
    (hkeep : ∀ x ∈ before ++ after, ∀ y, R x y → R' x y) (hprev : R' prev task)
    (hnext : ∀ next ∈ after.head?, R' task next) :
    (before ++ prev :: task :: after).IsChain R' := by
  obtain ⟨hbefore, hafter, hlink⟩ := isChain_append.mp h
  refine isChain_append.mpr ⟨?_, ?_, ?_⟩
  · exact hbefore.imp_of_mem_imp fun x y hx _ => hkeep x (mem_append_left _ hx) y
  · refine isChain_cons_cons.mpr ⟨hprev, isChain_cons.mpr ⟨hnext, ?_⟩⟩
    exact hafter.tail.imp_of_mem_imp fun x y hx _ => hkeep x (mem_append_right _ hx) y
  · intro x hx y hy
    exact hkeep x (mem_append_left _ (mem_of_getLast? hx)) y (hlink x hx y hy)

theorem PktWf.lastWordPa_inPages {pkt : ThreadPkt} (hwf : PktWf shift pkt pa) :
    pkt.InPages pkt.lastWordPa :=
  hwf.inPages_of_isCurrentRun hwf.isCurrentRun_lastWordPa

theorem PktWf.not_running {pkt : ThreadPkt} (hwf : PktWf shift pkt pa) (hout : ¬pkt.InPages pc) :
    pkt.isCurrentRun pc = false := by
  by_contra hrun
  exact hout (hwf.inPages_of_isCurrentRun (by simpa using hrun))

theorem Leaving.nil : Leaving shift mem pc [] :=
  ⟨by simp, by simp, .nil, by simp⟩

theorem Placed.nil : Placed shift mem pc endAddr [] := ⟨.nil, fun _ => Or.inr .nil⟩

/-- The engine is in the first task of the queue. -/
theorem Placed.first (hrun : task.pkt.isCurrentRun pc = true)
    (hlinks : (task :: tasks).IsChain (LinkedTo shift mem)) :
    Placed shift mem pc endAddr (task :: tasks) := by
  rw [← onward_cons_of_running hrun] at hlinks
  refine ⟨hlinks, fun hnil => ?_⟩
  rw [onward_cons_of_running hrun] at hnil
  cases hnil

namespace Queued

section

variable (h : Queued shift mem endAddr queue)
include h

theorem suffix (hsplit : queue = before ++ after) : Queued shift mem endAddr after := by
  subst hsplit
  refine ⟨fun task htask => h.wf task (mem_append_right _ htask),
    (pairwise_append.mp h.apart).2.1, h.jumps.right_of_append, fun task htask => ?_⟩
  refine h.last task ?_
  rw [getLast?_append, htask]
  rfl

/-- An address in the pages of a task is in those of no other. -/
theorem others_outside (hsplit : queue = before ++ task :: after) (hpa : task.pkt.InPages pa) :
    ∀ t ∈ before ++ after, ¬t.pkt.InPages pa := by
  have hapart := h.apart
  rw [hsplit, pairwise_middle fun hxy => hxy.symm] at hapart
  exact fun t ht => (rel_of_pairwise_cons hapart ht).not_inPages hpa

theorem onward_eq (hsplit : queue = before ++ task :: after)
    (hrun : task.pkt.isCurrentRun pa = true) : onward pa queue = task :: after := by
  have hwf := h.wf task (by simp [hsplit])
  have hnone : onward pa before = [] := onward_eq_nil.mpr fun t ht =>
    (h.wf t (by simp [hsplit, ht])).not_running
      (h.others_outside hsplit (hwf.inPages_of_isCurrentRun hrun) t (mem_append_left _ ht))
  rw [hsplit, onward_append, if_pos (by simp [hnone]), onward_cons_of_running hrun]

/-- An engine in a task whose links are right is in place. -/
theorem placed_inTask (hsplit : queue = before ++ task :: after)
    (hrun : task.pkt.isCurrentRun pc = true)
    (hlinks : (task :: after).IsChain (LinkedTo shift mem)) :
    Placed shift mem pc endAddr queue := by
  rw [← h.onward_eq hsplit hrun] at hlinks
  exact ⟨hlinks, fun hnil => by simp [h.onward_eq hsplit hrun] at hnil⟩

theorem end_inPages (htask : task ∈ queue.getLast?) : task.pkt.InPages endAddr := by
  rw [(h.last task htask).1]
  exact (h.wf task (mem_of_getLast? htask)).inPages_endPa

theorem pc_fits (hplaced : Placed shift mem pc endAddr queue) (hbusy : queue ≠ []) :
    u32 pc = pc := by
  rcases onward_cases pc queue with hnil | ⟨before, task, after, -, hsplit, hrun⟩
  · rcases hplaced.between hnil with hend | hleaving
    · have hlast := getLast?_eq_some_getLast hbusy
      rw [hend]
      exact (h.wf _ (getLast_mem hbusy)).u32_of_inPages (h.end_inPages hlast)
    · exact hleaving.pc_fits hbusy
  · have hwf := h.wf task (by simp [hsplit])
    exact hwf.u32_of_inPages (hwf.inPages_of_isCurrentRun hrun)

/-- A task ends with a jump to a task of the queue. -/
theorem target_queued (htask : task ∈ queue) (hpa : task.finalJump shift mem = some pa) :
    ∃ next ∈ queue, next.paBase = pa := by
  obtain ⟨before, after, hsplit⟩ := append_of_mem htask
  cases after with
  | nil => exact ⟨task, htask, ((h.last task (by simp [hsplit])).2 pa hpa).symm⟩
  | cons next after =>
    have hjumps := h.jumps
    rw [hsplit] at hjumps
    rcases (isChain_cons_cons.mp hjumps.right_of_append).1 pa hpa with hown | hnext
    · exact ⟨task, htask, hown.symm⟩
    · exact ⟨next, by simp [hsplit], hnext.symm⟩

end

end Queued

theorem irqRetire_fields (err : Bool) (s : Thread) {done rest : List Task} {failed : Bool}
    (hloop : irqLoop s.pc err s.taskBusyList = (done, rest, failed)) :
    (irqRetire err s).taskBusyList = rest ∧ (irqRetire err s).mem = s.mem ∧
    (irqRetire err s).endAddr = s.endAddr ∧ (irqRetire err s).timeoutTask = s.timeoutTask ∧
    (irqRetire err s).dirty = s.dirty ∧
    (failed = false → (irqRetire err s).pc = s.pc ∧
      (irqRetire err s).suspended = s.suspended) ∧
    (failed = true → ∀ task ∈ rest.head?, (irqRetire err s).pc = task.paBase) := by
  unfold irqRetire
  rw [hloop]
  cases failed with
  | false => cases rest <;> simp [threadOff, taskCallbacks]
  | true =>
    cases rest <;>
      simp [threadOff, taskCallbacks, cmdqTaskHandleError, cmdqThreadResume]

theorem cmdqThreadIrqHandler_frame (irq : IrqInput) (s : Thread) :
    (cmdqThreadIrqHandler irq s).timeoutTask = s.timeoutTask ∧
      (cmdqThreadIrqHandler irq s).dirty = s.dirty ∧
      (irq.error = false → (cmdqThreadIrqHandler irq s).suspended = s.suspended) := by
  rcases cmdqThreadIrqHandler_cases irq s with heq | ⟨_, _, _, _, heq⟩ | ⟨_, _, heq⟩ <;> rw [heq]
  · exact ⟨rfl, rfl, fun _ => rfl⟩
  · exact ⟨rfl, rfl, fun _ => rfl⟩
  · obtain ⟨-, -, -, htimeout, hdirty, hok, -⟩ := irqRetire_fields irq.error s rfl
    refine ⟨htimeout, hdirty, fun herr => (hok ?_).2⟩
    refine (congrArg Prod.snd (irqLoop_onward s.pc irq.error s.taskBusyList) :).trans ?_
    cases onward s.pc s.taskBusyList with
    | nil => rfl
    | cons task after =>
      simp only [herr]
      split_ifs <;> first | rfl | contradiction

namespace ChainInv

variable {s s' : Thread} {pkt : ThreadPkt}

theorem nil (hqueue : s.queue = []) (hidle : s.timeoutTask = none) : ChainInv shift s := by
  refine ⟨?_, ?_, by simp [hidle]⟩ <;> rw [hqueue]
  · exact ⟨by simp, .nil, .nil, by simp⟩
  · exact .nil

theorem timeoutRestart (hqueued : Queued shift s.mem s.endAddr s.queue)
    (hlinks : s.queue.IsChain (LinkedTo shift s.mem)) (hidle : s.timeoutTask = none) :
    ChainInv shift (timeoutRestart s) := by
  unfold Cmdq.timeoutRestart
  cases hlist : s.taskBusyList with
  | nil => exact nil (by simp [Thread.queue, hlist, threadOff]) hidle
  | cons task tasks =>
    have hqueue : s.queue = task.unaged :: tasks.map Task.unaged := by
      rw [Thread.queue, hlist, map_cons]
    rw [hqueue] at hqueued hlinks
    refine ⟨hqueued, .first ?_ hlinks, by simp [cmdqThreadResume, hidle]⟩
    exact (hqueued.wf task.unaged mem_cons_self).isCurrentRun_base

section

variable (h : ChainInv shift s)
include h

theorem idle_of_no_window (hno : ∀ ptr, ¬Window shift s ptr) : s.timeoutTask = none :=
  eq_none_iff_forall_ne_some.mpr fun ptr hptr => hno ptr (h.window ptr hptr)

theorem idle_of_clean (hclean : s.dirty = false) : s.timeoutTask = none :=
  h.idle_of_no_window fun _ hwindow => by simp [hwindow.dirty] at hclean

theorem links_onward :
    ((onward s.pc s.taskBusyList).map Task.unaged).IsChain (LinkedTo shift s.mem) :=
  onward_unaged s.pc s.taskBusyList ▸ h.placed.links

theorem irqRetire (hidle : s.timeoutTask = none) (err : Bool) :
    ChainInv shift (irqRetire err s) := by
  obtain ⟨done, rest, failed, hloop⟩ :
      ∃ done rest failed, irqLoop s.pc err s.taskBusyList = (done, rest, failed) := ⟨_, _, _, rfl⟩
  obtain ⟨hlist, hmem, hend, htimeout, -, hok, hfail⟩ := irqRetire_fields err s hloop
  have hsplit : s.queue = done.map Task.unaged ++ rest.map Task.unaged := by
    have happend := irqLoop_append s.pc err s.taskBusyList
    rw [hloop] at happend
    rw [Thread.queue, ← happend, map_append]
  have hqueued := h.queued.suffix hsplit
  refine ⟨?_, ?_, by simp [htimeout, hidle]⟩ <;> rw [Thread.queue, hlist, hmem, hend]
  · exact hqueued
  have honward := irqLoop_onward s.pc err s.taskBusyList
  have hlinks := h.links_onward
  rw [hloop] at honward
  rcases onward_cases s.pc s.taskBusyList with hnil | ⟨before, task, after, hcons, hlist', hrun⟩
  · rw [hnil] at honward
    cases honward
    exact .nil
  rw [hcons] at honward hlinks
  have hcut : s.queue = before.map Task.unaged ++ task.unaged :: after.map Task.unaged := by
    simp [Thread.queue, hlist']
  have htask := h.queued.wf task.unaged (by simp [hcut])
  dsimp only at honward
  split_ifs at honward with hlastWord herr <;> cases honward
  · -- the engine is at the last word of `task`, which leads to the rest of the list
    have hpages := htask.inPages_of_isCurrentRun hrun
    have hout : ∀ t ∈ rest.map Task.unaged, ¬t.pkt.InPages s.pc := fun t ht =>
      h.queued.others_outside hcut hpages t (mem_append_right _ ht)
    have hword : s.pc = task.unaged.pkt.lastWordPa := by
      have hadd : _ = task.pkt.endPa := htask.lastWordPa_add
      omega
    obtain ⟨hlink, hrest⟩ := isChain_cons.mp hlinks
    rw [(hok rfl).1]
    refine ⟨?_, fun _ => Or.inr ⟨hout, fun _ => htask.u32_of_inPages hpages, hrest, ?_⟩⟩
    · rw [onward_eq_nil.mpr fun t ht => (hqueued.wf t ht).not_running (hout t ht)]
      exact .nil
    · intro next hnext
      rw [hword]
      exact hlink next hnext
  · -- the current task failed, and the engine goes on with the next one
    cases rest with
    | nil => exact .nil
    | cons next after =>
      rw [hfail rfl next rfl]
      exact .first (hqueued.wf next.unaged mem_cons_self).isCurrentRun_base hlinks.tail
  · rw [(hok rfl).1]
    exact .first hrun hlinks

/-- An interrupt keeps the chain. -/
theorem irqHandler (irq : IrqInput) : ChainInv shift (cmdqThreadIrqHandler irq s) := by
  rcases cmdqThreadIrqHandler_cases irq s with
    heq | ⟨task, tasks, -, -, heq⟩ | ⟨-, hclean, heq⟩ <;> rw [heq]
  · exact h
  · exact ⟨h.queued, h.placed, fun ptr hptr => { h.window ptr hptr with }⟩
  · exact h.irqRetire (h.idle_of_clean hclean) irq.error

theorem suspend : ChainInv shift (cmdqThreadSuspend s) :=
  ⟨h.queued, h.placed, fun ptr hptr => { h.window ptr hptr with suspended := rfl }⟩

theorem resume (hidle : s.timeoutTask = none) : ChainInv shift (cmdqThreadResume s) :=
  ⟨h.queued, h.placed, by simp [cmdqThreadResume, hidle]⟩

end

end ChainInv

theorem Queued.boundary_inPages (h : Queued shift mem endAddr queue) (htask : task ∈ queue.getLast?)
    (hboundary : pc + cmdqInstSize = endAddr ∨ pc = endAddr) : task.pkt.InPages pc := by
  have hwf := h.wf task (mem_of_getLast? htask)
  rcases hboundary with hlast | hend
  · have hword : pc = task.pkt.lastWordPa := by
      have heq := (h.last task htask).1
      have hadd := hwf.lastWordPa_add
      omega
    rw [hword]
    exact hwf.lastWordPa_inPages
  · rw [hend]
    exact h.end_inPages htask

theorem Queued.placed_atEnd (h : Queued shift mem endAddr queue)
    (hsplit : queue = before ++ [task]) : Placed shift mem endAddr endAddr queue := by
  have hlast : task ∈ queue.getLast? := by simp [hsplit]
  have hnil : onward endAddr queue = [] := by
    refine onward_eq_nil.mpr fun t ht => ?_
    have hwf := h.wf t ht
    rw [hsplit] at ht
    rcases mem_append.mp ht with hbefore | hsingle
    · exact hwf.not_running
        (h.others_outside hsplit (h.end_inPages hlast) t (by simpa using hbefore))
    · obtain rfl := mem_singleton.mp hsingle
      rw [(h.last t hlast).1]
      exact hwf.not_isCurrentRun_endPa
  exact ⟨hnil ▸ .nil, fun _ => Or.inl rfl⟩

/-- From its last command the engine follows the jump, if any. -/
theorem Queued.placed_follow (h : Queued shift mem endAddr queue)
    (hsplit : queue = before ++ task :: after)
    (hpc : pc = (jumpTarget shift (mem task.pkt.lastWordPa)).getD
      (task.pkt.lastWordPa + cmdqInstSize))
    (hlinks : (task :: after).IsChain (LinkedTo shift mem)) :
    Placed shift mem pc endAddr queue := by
  have hwf := h.wf task (by simp [hsplit])
  cases after with
  | cons next after =>
    obtain ⟨hlink, hrest⟩ := isChain_cons_cons.mp hlinks
    have hto : pc = next.paBase := by
      unfold LinkedTo Task.finalJump at hlink
      rw [hpc, hlink]
      rfl
    have hcut : queue = (before ++ [task]) ++ next :: after := by simp [hsplit]
    refine h.placed_inTask hcut ?_ hrest
    rw [hto]
    exact (h.wf next (by simp [hsplit])).isCurrentRun_base
  | nil =>
    obtain ⟨hend, hown⟩ := h.last task (by simp [hsplit])
    cases htarget : jumpTarget shift (mem task.pkt.lastWordPa) with
    | none =>
      have hto : pc = endAddr := by
        rw [hpc, htarget, hend, ← hwf.lastWordPa_add]
        rfl
      rw [hto]
      exact h.placed_atEnd hsplit
    | some pa =>
      rw [htarget] at hpc
      refine h.placed_inTask hsplit ?_ hlinks
      rw [hpc.trans (hown pa htarget)]
      exact hwf.isCurrentRun_base

namespace ChainInv

section

variable {s : Thread} (h : ChainInv shift s)
include h

/-- The timeout keeps the chain. -/
theorem timeout {exceed exceedAgain : Bool} (herror : irq.error = true → exceedAgain = false) :
    ChainInv shift (cmdqThreadHandleTimeoutWork exceed exceedAgain irq s) := by
  rcases cmdqThreadHandleTimeoutWork_cases exceed exceedAgain irq s with
    heq | ⟨s1, hs1, -, hidle, hcases⟩
  · rw [heq]
    exact h
  have h1 : ChainInv shift s1 := hs1 ▸ h.suspend.irqHandler irq
  obtain ⟨htimeout, -, hkept⟩ := cmdqThreadIrqHandler_frame irq (cmdqThreadSuspend s)
  rw [← hs1] at htimeout hkept
  have hidle1 : s1.timeoutTask = none := htimeout.trans hidle
  rcases hcases with ⟨-, heq⟩ | heq | ⟨done, rest, hbusy, hagain, hloop, hcases⟩
  · rw [heq]
    exact h1
  · rw [heq]
    exact h1.resume hidle1
  have hnoerror : irq.error = false := by
    by_contra herr
    have hstop := herror (by simpa using herr)
    simp [hagain] at hstop
  have hsplit : s1.queue = done.map Task.unaged ++ rest.map Task.unaged := by
    have happend := timeoutLoop_append (u32 s1.pc) s1.taskBusyList
    rw [hloop] at happend
    rw [Thread.queue, ← happend, map_append]
  have hqueued := h1.queued.suffix hsplit
  rcases hcases with ⟨rfl, heq⟩ | ⟨task, tasks, rfl, heq⟩
  · rw [heq]
    exact timeoutRestart hqueued .nil hidle1
  · rw [heq]
    have honward := timeoutLoop_onward (u32 s1.pc) s1.taskBusyList
    rw [hloop, h1.queued.pc_fits h1.placed (by simpa [Thread.queue] using hbusy)] at honward
    have hlinks := h1.links_onward
    rw [← honward] at hlinks
    have hrun : task.pkt.isCurrentRun s1.pc = true := by
      rcases onward_cases s1.pc s1.taskBusyList with hnil | ⟨_, _, _, hcons, -, hrun⟩
      · simp [hnil] at honward
      · rw [hcons] at honward
        cases honward
        exact hrun
    refine ⟨hqueued, .first hrun hlinks, fun ptr hptr => ?_⟩
    refine ⟨rfl, hkept hnoerror, task.unaged, tasks.map Task.unaged, rfl, some.inj hptr,
      hlinks.tail, fun hboundary => ?_⟩
    by_contra hne
    have hlast := getLast?_eq_some_getLast hne
    have hin := hqueued.boundary_inPages (by rw [map_cons, getLast?_cons, hlast]; rfl) hboundary
    have hpages := (hqueued.wf task.unaged mem_cons_self).inPages_of_isCurrentRun hrun
    have hnil : (task :: tasks).map Task.unaged = [] ++ task.unaged :: tasks.map Task.unaged := rfl
    exact hqueued.others_outside hnil hpages _ (mem_of_getLast? hlast) hin

theorem relock : ChainInv shift (timeoutRelock s) := by
  rcases timeoutRelock_cases s with
    heq | ⟨hsome, hother, -⟩ | ⟨task, tasks, hlist, hptr, heq⟩
  · rw [heq]
    exact h
  · -- the timed out task is still the first one
    obtain ⟨ptr, hptr⟩ := isSome_iff_exists.mp hsome
    obtain ⟨task, tasks, hqueue, rfl, -⟩ := (h.window ptr hptr).list
    obtain ⟨first, rest, hlist, rfl, -⟩ := map_eq_cons_iff.mp hqueue
    exact absurd hptr (hother first (by simp [hlist]))
  · rw [heq]
    have hqueue : s.queue = [task.unaged] ++ tasks.map Task.unaged := by simp [Thread.queue, hlist]
    obtain ⟨first, rest, hqueue', -, hlinks, -⟩ := (h.window _ hptr).list
    rw [hqueue] at hqueue'
    cases hqueue'
    exact timeoutRestart (h.queued.suffix hqueue) hlinks rfl

theorem removeTask {pkt : ℕ} (hfirst : RemovesFirst pkt irq s) :
    ChainInv shift (cmdqMboxThreadRemoveTask pkt irq s) := by
  rcases cmdqMboxThreadRemoveTask_cases pkt irq s with heq | ⟨s1, hs1, -, hcases⟩
  · rw [heq]
    exact h
  have h1 : ChainInv shift s1 := hs1 ▸ h.suspend.irqHandler irq
  have hdirty : s1.dirty = s.dirty := by
    rw [hs1, (cmdqThreadIrqHandler_frame irq _).2.1]
    rfl
  unfold RemovesFirst removalState at hfirst
  rw [← hs1] at hfirst
  rcases hcases with ⟨hnone, heq⟩ | ⟨before, task, after, hfound, hcases⟩
  · rw [hnone] at hfirst
    rw [heq]
    exact h1.resume (h1.idle_of_clean (hdirty.trans hfirst))
  rw [hfound] at hfirst
  obtain ⟨rfl, hpassed⟩ := hfirst
  rcases hcases with ⟨-, -, heq⟩ | ⟨hclean, heq⟩
  · rw [heq]
    exact h1
  rw [heq]
  have hidle := h1.idle_of_clean (hclean rfl)
  have hlist : s1.taskBusyList = task :: after := removeSearch_eq hfound
  have hqueue : s1.queue = [task.unaged] ++ after.map Task.unaged := by simp [Thread.queue, hlist]
  have hqueued := h1.queued.suffix hqueue
  have hlinks := h1.links_onward
  rw [h1.queued.pc_fits h1.placed (by simp [hqueue])]
  cases after with
  | nil => exact nil rfl hidle
  | cons next tasks =>
    have hno (t : Thread) : ∀ ptr, s1.timeoutTask = some ptr → Window shift t ptr := by
      simp [hidle]
    cases hrun : task.pkt.isCurrentRun s1.pc with
    | true =>
      -- the engine was in the removed task
      rw [hlist, onward_cons_of_running hrun] at hlinks
      refine ⟨hqueued, .first ?_ hlinks.tail, hno _⟩
      exact (hqueued.wf next.unaged mem_cons_self).isCurrentRun_base
    | false =>
      rw [hlist, onward_cons_of_not_running hrun, ← onward_unaged] at hlinks
      refine ⟨hqueued, ⟨hlinks, fun hnil => Or.inl ?_⟩, hno _⟩
      rcases hpassed (hdirty ▸ hclean rfl) with hend | ⟨t, ht, hcurrent⟩
      · exact hend
      · have hnone : onward s1.pc s1.taskBusyList = [] := by
          rw [hlist, onward_cons_of_not_running hrun]
          exact map_eq_nil_iff.mp ((onward_unaged _ _).symm.trans hnil)
        simp [onward_eq_nil.mp hnone t ht] at hcurrent

/-- The engine moves along the chain. -/
theorem move (hmove : EngineMoves shift s pc) (hidle : s.timeoutTask = none) :
    ChainInv shift { s with pc := pc } := by
  refine ⟨h.queued, ?_, by simp [hidle]⟩
  show Placed shift s.mem pc s.endAddr s.queue
  rcases hmove with ⟨task, htask, hrun, hto⟩ | ⟨hnone, hto⟩
  · obtain ⟨before, after, hsplit⟩ := append_of_mem (mem_map_of_mem (f := Task.unaged) htask)
    have hlinks := h.placed.links
    rw [h.queued.onward_eq hsplit hrun] at hlinks
    rcases hto with hwithin | ⟨hlast, hfollow⟩
    · exact h.queued.placed_inTask hsplit hwithin hlinks
    · exact h.queued.placed_follow hsplit (hlast ▸ hfollow) hlinks
  · have hnil : onward s.pc s.queue = [] := by
      rw [Thread.queue, onward_unaged, onward_eq_nil.mpr hnone]
      rfl
    rcases hto with ⟨hend, hstay⟩ | ⟨hnotEnd, hfollow⟩
    · exact hstay ▸ h.placed
    · have hleaving := (h.placed.between hnil).resolve_left hnotEnd
      have hqueued := h.queued
      generalize s.queue = queue at hleaving hqueued
      cases queue with
      | nil => exact .nil
      | cons first rest =>
        rw [hleaving.next first rfl] at hfollow
        rw [hfollow]
        exact .first (hqueued.wf first mem_cons_self).isCurrentRun_base hleaving.links

end

end ChainInv

theorem PktWf.ne_lastWordPa {pkt : ThreadPkt} {paBase : ℕ} (hwf : PktWf shift pkt paBase)
    (hout : ¬pkt.InPages pa) : pkt.lastWordPa ≠ pa := by
  rintro rfl
  exact hout hwf.lastWordPa_inPages

theorem LinkedTo.mayJump {next : Task} (h : LinkedTo shift mem task next) :
    MayJump shift mem task next := fun _ hpa => Or.inr (some.inj (hpa.symm.trans h))

theorem lastEndPa_eq (endAddr : ℕ) (htask : task ∈ (tasks.map Task.unaged).getLast?) :
    lastEndPa tasks endAddr = task.pkt.endPa := by
  rw [getLast?_map] at htask
  obtain ⟨last, hlast, rfl⟩ := map_eq_some_iff.mp htask
  rw [lastEndPa, hlast]
  rfl

theorem insertLinks_spec (shift : ℕ) (mem : ℕ → ℕ) (after : List Task)
    (stopped : Bool) (hne : prev.pkt.lastWordPa ≠ task.pkt.lastWordPa) :
    let mem' := insertLinks shift mem prev task after stopped
    mem' prev.pkt.lastWordPa = linkJump shift task.paBase ∧
    (∀ pa, prev.pkt.lastWordPa ≠ pa → task.pkt.lastWordPa ≠ pa → mem' pa = mem pa) ∧
    (after = [] → mem' task.pkt.lastWordPa = mem task.pkt.lastWordPa) ∧
    (stopped = true → ∀ next ∈ after.head?,
      mem' task.pkt.lastWordPa = linkJump shift next.paBase) := by
  unfold insertLinks cmdqTaskConnectBuffer
  cases after with
  | nil =>
    refine ⟨by simp, fun pa hprev htask => by simp [hprev.symm], fun _ => by simp [hne.symm], ?_⟩
    simp
  | cons next after =>
    cases stopped with
    | false => exact ⟨by simp, fun pa hprev htask => by simp [hprev.symm], by simp, by simp⟩
    | true =>
      refine ⟨by simp [hne], fun pa hprev htask => ?_, by simp, by simp⟩
      simp [hprev.symm, htask.symm]

/-- A task behind the current one does not change where the engine is. -/
theorem onward_insert (before : List Task) (prev : Task)
    (hnone : ∀ t ∈ task :: after, t.pkt.isCurrentRun pc = false) :
    (onward pc (before ++ prev :: after) = [] ∧ onward pc (before ++ prev :: task :: after) = []) ∨
    ∃ before', before' ⊆ before ∧ onward pc (before ++ prev :: after) = before' ++ prev :: after ∧
      onward pc (before ++ prev :: task :: after) = before' ++ prev :: task :: after := by
  rw [onward_append, onward_append]
  split_ifs
  · cases hrun : prev.pkt.isCurrentRun pc with
    | true =>
      exact Or.inr ⟨[], nil_subset _, onward_cons_of_running hrun, onward_cons_of_running hrun⟩
    | false =>
      rw [onward_cons_of_not_running hrun, onward_cons_of_not_running hrun]
      refine Or.inl ⟨onward_eq_nil.mpr fun t ht => ?_, onward_eq_nil.mpr hnone⟩
      exact hnone t (mem_cons_of_mem _ ht)
  · exact Or.inr ⟨onward pc before, (dropWhile_sublist _).subset, rfl, rfl⟩

/-- A task with pages of its own may be queued. -/
theorem Queued.insert {endAddr' : ℕ} (h : Queued shift mem endAddr (before ++ after))
    (hwf : PktWf shift task.pkt task.paBase)
    (hapart : ∀ t ∈ before ++ after, t.pkt.Apart task.pkt)
    (hjumps : (before ++ task :: after).IsChain (MayJump shift mem'))
    (hlast : ∀ t ∈ (before ++ task :: after).getLast?, endAddr' = t.pkt.endPa ∧
      ∀ pa, t.finalJump shift mem' = some pa → pa = t.paBase) :
    Queued shift mem' endAddr' (before ++ task :: after) := by
  refine ⟨fun t ht => ?_, ?_, hjumps, hlast⟩
  · by_cases hnew : t = task
    · exact hnew ▸ hwf
    · refine h.wf t ?_
      simp only [mem_append, mem_cons] at ht ⊢
      tauto
  · rw [pairwise_middle fun hxy => hxy.symm]
    exact pairwise_cons.mpr ⟨fun t ht => (hapart t ht).symm, h.apart⟩

section Insert

variable (hkeep : ∀ t ∈ before ++ after, mem' t.pkt.lastWordPa = mem t.pkt.lastWordPa)
  (hprev : LinkedTo shift mem' prev task)
  (hnext : ∀ next ∈ after.head?, LinkedTo shift mem' task next)
include hkeep hprev hnext

theorem isChain_mayJump_insert (h : (before ++ prev :: after).IsChain (MayJump shift mem)) :
    (before ++ prev :: task :: after).IsChain (MayJump shift mem') := by
  refine isChain_insert h (fun t ht next hjump pa hpa => hjump pa ?_) hprev.mayJump
    fun next hhead => (hnext next hhead).mayJump
  unfold Task.finalJump at hpa ⊢
  rwa [hkeep t ht] at hpa

theorem isChain_linkedTo_insert (h : (before ++ prev :: after).IsChain (LinkedTo shift mem)) :
    (before ++ prev :: task :: after).IsChain (LinkedTo shift mem') := by
  refine isChain_insert h (fun t ht next hlink => ?_) hprev hnext
  unfold LinkedTo Task.finalJump at hlink ⊢
  rwa [hkeep t ht]

theorem Placed.insert (endAddr' : ℕ) (h : Placed shift mem pc endAddr (before ++ prev :: after))
    (hnone : ∀ t ∈ task :: after, t.pkt.isCurrentRun pc = false) (hnotEnd : pc ≠ endAddr)
    (hout : ¬task.pkt.InPages pc) (hword : ¬prev.pkt.InPages pc → mem' pc = mem pc) :
    Placed shift mem' pc endAddr' (before ++ prev :: task :: after) := by
  rcases onward_insert before prev hnone with
    ⟨hold, hnew⟩ | ⟨before', hsub, hold, hnew⟩
  · have hleaving := (h.between hold).resolve_left hnotEnd
    refine ⟨hnew ▸ .nil, fun _ => Or.inr ⟨fun t ht => ?_, fun _ => hleaving.pc_fits (by simp),
      isChain_linkedTo_insert hkeep hprev hnext hleaving.links,
      fun first hfirst => ?_⟩⟩
    · by_cases hsame : t = task
      · exact hsame ▸ hout
      · refine hleaving.outside t ?_
        simp only [mem_append, mem_cons] at ht ⊢
        tauto
    · rw [hword (hleaving.outside prev (by simp))]
      refine hleaving.next first ?_
      cases before with
      | nil | cons second before => exact hfirst
  · have hlinks := h.links
    rw [hold] at hlinks
    refine ⟨?_, fun hnil => by simp [hnew] at hnil⟩
    rw [hnew]
    refine isChain_linkedTo_insert (fun t ht => hkeep t ?_) hprev hnext hlinks
    exact mem_append.mpr ((mem_append.mp ht).imp_left (@hsub t))

end Insert

namespace ChainInv

section

variable {s : Thread} (h : ChainInv shift s)
include h

section

variable {lastWord : ℕ} (hwf : PktWf shift task.unaged.pkt task.unaged.paBase)
  (hapart : ∀ t ∈ s.queue, t.pkt.Apart task.unaged.pkt)
  (hown : ∀ pa, jumpTarget shift lastWord = some pa → pa = task.paBase)
include hwf hapart hown

/-- A task may be appended while the engine is at the end. -/
theorem appendTask (hboundary : s.AtBoundary) :
    ChainInv shift { submitTask task lastWord s with
      pc := task.paBase
      taskBusyList := s.taskBusyList ++ [task]
      endAddr := lastEndPa (s.taskBusyList ++ [task]) s.endAddr
      suspended := s.dirty } := by
  have hqueue : (s.taskBusyList ++ [task]).map Task.unaged = s.queue ++ [task.unaged] := map_append
  have hend : lastEndPa (s.taskBusyList ++ [task]) s.endAddr = task.unaged.pkt.endPa :=
    lastEndPa_eq _ (by simp [hqueue])
  have hkeep : ∀ t ∈ s.queue, t.finalJump shift (submitTask task lastWord s).mem =
      t.finalJump shift s.mem := by
    intro t ht
    have hpages := (h.queued.wf t ht).lastWordPa_inPages
    have hne := (hwf.ne_lastWordPa ((hapart t ht).not_inPages hpages)).symm
    exact congrArg (jumpTarget shift) (Function.update_of_ne hne _ _)
  have hqueued : Queued shift (submitTask task lastWord s).mem
      (lastEndPa (s.taskBusyList ++ [task]) s.endAddr)
      ((s.taskBusyList ++ [task]).map Task.unaged) := by
    rw [hqueue, hend]
    refine Queued.insert ((append_nil s.queue).symm ▸ h.queued) hwf (by simpa using hapart)
      (isChain_append.mpr ⟨?_, .singleton _, fun t ht _ _ pa hpa => ?_⟩) fun t ht => ?_
    · refine h.queued.jumps.imp_of_mem_imp fun t next ht _ hjump pa hpa => hjump pa ?_
      exact (hkeep t ht).symm.trans hpa
    · rw [hkeep t (mem_of_getLast? ht)] at hpa
      exact Or.inl ((h.queued.last t ht).2 pa hpa)
    · obtain rfl : task.unaged = t := by simpa using ht
      refine ⟨rfl, fun pa hpa => hown pa ?_⟩
      exact (congrArg (jumpTarget shift) (Function.update_self ..)).symm.trans hpa
  refine ⟨hqueued, hqueued.placed_inTask hqueue hwf.isCurrentRun_base (.singleton _), ?_⟩
  intro ptr hptr
  obtain ⟨hdirty, -, first, tasks, hlist, hfirst, -, hnil⟩ := h.window ptr hptr
  obtain rfl := hnil hboundary
  refine ⟨hdirty, hdirty, first, [task.unaged], hqueue.trans (by rw [hlist]; rfl), hfirst,
    .singleton _, ?_⟩
  rintro (hlast | hat)
  · exact absurd (hlast.trans hend) hwf.long
  · have hrun := hwf.isCurrentRun_base
    have hbase : task.unaged.paBase = task.unaged.pkt.endPa := hat.trans hend
    rw [hbase, hwf.not_isCurrentRun_endPa] at hrun
    cases hrun

/-- A task may be inserted behind the current one. -/
theorem insertTask {before rest : List Task} {stopped : Bool}
    (hout : ¬task.unaged.pkt.InPages s.pc)
    (hqueue : s.queue = before.map Task.unaged ++ prev.unaged :: rest.map Task.unaged)
    (hnot : ¬s.AtBoundary) (hrest : ∀ t ∈ rest, t.pkt.isCurrentRun s.pc = false)
    (hstop : rest ≠ [] → stopped = true) :
    ChainInv shift { submitTask task lastWord s with
      mem := insertLinks shift (submitTask task lastWord s).mem prev task rest stopped
      taskBusyList := before ++ prev :: task :: rest
      endAddr := lastEndPa (before ++ prev :: task :: rest) s.endAddr
      suspended := s.dirty } := by
  have hprevMem : prev.unaged ∈ s.queue := by simp [hqueue]
  have hprevWf := h.queued.wf _ hprevMem
  have hprevPages := hprevWf.lastWordPa_inPages
  have hne : prev.pkt.lastWordPa ≠ task.pkt.lastWordPa :=
    (hwf.ne_lastWordPa ((hapart _ hprevMem).not_inPages hprevPages)).symm
  obtain ⟨hlinkPrev, hother, hlastWord, hlinkNext⟩ :=
    insertLinks_spec shift (submitTask task lastWord s).mem rest stopped hne
  generalize insertLinks shift (submitTask task lastWord s).mem prev task rest stopped = mem at *
  have hmem : ∀ pa, prev.pkt.lastWordPa ≠ pa → task.pkt.lastWordPa ≠ pa → mem pa = s.mem pa :=
    fun pa hprev htask => (hother pa hprev htask).trans (Function.update_of_ne htask.symm _ _)
  have hkeep : ∀ t ∈ before.map Task.unaged ++ rest.map Task.unaged,
      mem t.pkt.lastWordPa = s.mem t.pkt.lastWordPa := by
    intro t ht
    have htMem : t ∈ s.queue := by
      rw [hqueue]
      simp only [mem_append, mem_cons] at ht ⊢
      tauto
    have htWf := h.queued.wf t htMem
    refine hmem _ ?_ (hwf.ne_lastWordPa ((hapart t htMem).not_inPages htWf.lastWordPa_inPages))
    exact (htWf.ne_lastWordPa (h.queued.others_outside hqueue hprevPages t ht)).symm
  have hprev : LinkedTo shift mem prev.unaged task.unaged :=
    (congrArg (jumpTarget shift) hlinkPrev).trans hwf.jumpTarget_base
  have hnext : ∀ next ∈ (rest.map Task.unaged).head?, LinkedTo shift mem task.unaged next := by
    cases rest with
    | nil => simp
    | cons next rest =>
      intro next' hnext'
      cases hnext'
      refine (congrArg (jumpTarget shift) (hlinkNext (hstop (by simp)) next rfl)).trans ?_
      exact (h.queued.wf next.unaged (by simp [hqueue])).jumpTarget_base
  have hlast : ∀ t ∈ ((before ++ prev :: task :: rest).map Task.unaged).getLast?,
      (rest = [] ∧ t = task.unaged) ∨ (t ∈ rest.map Task.unaged ∧ t ∈ s.queue.getLast?) := by
    intro t ht
    cases rest with
    | nil => exact Or.inl ⟨rfl, by simpa using ht.symm⟩
    | cons next rest =>
      have htail : t ∈ ((next :: rest).map Task.unaged).getLast? := by simpa using ht
      exact Or.inr ⟨mem_of_getLast? htail, by simpa [hqueue] using htail⟩
  have hend : ∀ t ∈ ((before ++ prev :: task :: rest).map Task.unaged).getLast?,
      lastEndPa (before ++ prev :: task :: rest) s.endAddr = t.pkt.endPa :=
    fun t ht => lastEndPa_eq _ ht
  generalize lastEndPa (before ++ prev :: task :: rest) s.endAddr = endAddr at hend ⊢
  have hnew : (before ++ prev :: task :: rest).map Task.unaged =
      before.map Task.unaged ++ prev.unaged :: task.unaged :: rest.map Task.unaged := by simp
  have hqueued : Queued shift mem endAddr ((before ++ prev :: task :: rest).map Task.unaged) := by
    have hold := hqueue ▸ h.queued
    have hcut := append_cons (before.map Task.unaged) prev.unaged
    have hjumps := isChain_mayJump_insert hkeep hprev hnext hold.jumps
    rw [hcut] at hold hjumps
    rw [hnew, hcut]
    refine hold.insert hwf (by simpa [hqueue] using hapart) hjumps fun t ht => ?_
    rw [← hcut, ← hnew] at ht
    refine ⟨hend t ht, fun pa hpa => ?_⟩
    rcases hlast t ht with ⟨hnil, rfl⟩ | ⟨hin, holdLast⟩
    · have hword := (hlastWord hnil).trans (Function.update_self ..)
      exact hown pa ((congrArg (jumpTarget shift) hword).symm.trans hpa)
    · refine (h.queued.last t holdLast).2 pa (Eq.trans ?_ hpa)
      exact (congrArg (jumpTarget shift) (hkeep t (mem_append_right _ hin))).symm
  have hplaced : Placed shift mem s.pc endAddr
      ((before ++ prev :: task :: rest).map Task.unaged) := by
    rw [hnew]
    refine (hqueue ▸ h.placed).insert hkeep hprev hnext endAddr ?_ (fun heq => hnot (Or.inr heq))
      hout fun houtPrev => hmem _ (hprevWf.ne_lastWordPa houtPrev) (hwf.ne_lastWordPa hout)
    refine forall_mem_cons.mpr ⟨hwf.not_running hout, fun t ht => ?_⟩
    obtain ⟨t', ht', rfl⟩ := mem_map.mp ht
    exact hrest t' ht'
  have hnot' : ¬(s.pc + cmdqInstSize = endAddr ∨ s.pc = endAddr) := by
    intro hboundary
    obtain ⟨t, ht⟩ : ∃ t, t ∈ ((before ++ prev :: task :: rest).map Task.unaged).getLast? :=
      ⟨_, getLast?_eq_some_getLast (by simp)⟩
    rcases hlast t ht with ⟨-, rfl⟩ | ⟨-, holdLast⟩
    · exact hout (hqueued.boundary_inPages ht hboundary)
    · rw [hend t ht, ← (h.queued.last t holdLast).1] at hboundary
      exact hnot hboundary
  refine ⟨hqueued, hplaced, fun ptr hptr => ?_⟩
  obtain ⟨hd, -, first, tasks, hcut, hfirst, hlinks, -⟩ := h.window ptr hptr
  rw [hqueue] at hcut
  cases before with
  | nil =>
    obtain ⟨rfl, rfl⟩ := cons.inj hcut
    refine ⟨hd, hd, prev.unaged, task.unaged :: rest.map Task.unaged, rfl, hfirst,
      isChain_cons.mpr ⟨hnext, ?_⟩, fun hboundary => absurd hboundary hnot'⟩
    refine hlinks.imp_of_mem_imp fun t next ht _ hlink => ?_
    exact (congrArg (jumpTarget shift) (hkeep t ht)).trans hlink
  | cons second before =>
    obtain ⟨rfl, rfl⟩ := cons.inj hcut
    refine ⟨hd, hd, second.unaged, _, hnew, hfirst, ?_,
      fun hboundary => absurd hboundary hnot'⟩
    exact isChain_linkedTo_insert (fun t ht => hkeep t (mem_cons_of_mem _ ht)) hprev hnext hlinks

/-- A submission keeps the chain. -/
theorem addToThread (hout : ¬task.unaged.pkt.InPages s.pc) (hbusy : s.taskBusyList ≠ [])
    (hstops : SearchStops s task.pkt) :
    ChainInv shift (addToThread shift task (submitTask task lastWord s)) := by
  unfold Cmdq.addToThread
  by_cases hboundary : (submitTask task lastWord s).AtBoundary
  · rw [if_pos (by simpa only [or_eq_true, decide_eq_true_eq, Thread.AtBoundary] using hboundary)]
    exact h.appendTask hwf hapart hown hboundary
  rw [if_neg (by simpa only [or_eq_true, decide_eq_true_eq, Thread.AtBoundary] using hboundary)]
  unfold cmdqTaskInsertIntoThread
  cases hsearch : insertSearch s.pc task.pkt.priority [] s.taskBusyList.reverse with
  | none => exact absurd hsearch (insertSearch_ne_none (reverse_ne_nil_iff.mpr hbusy))
  | some found =>
    obtain ⟨before, prev, rest, stopped⟩ := found
    obtain ⟨passed, hrev, hpassed, hlow, hran⟩ := insertSearch_spec hsearch
    have hqueue : s.queue = before.map Task.unaged ++ prev.unaged :: rest.map Task.unaged := by
      rw [Thread.queue, ← reverse_reverse s.taskBusyList, hrev, hpassed, map_append, map_cons,
        map_append, List.map_map, ageFirst, map_nil, append_nil]
      rfl
    have hrest : ∀ t ∈ rest, t.pkt.isCurrentRun s.pc = false := by
      intro t ht
      rw [hpassed] at ht
      obtain ⟨t', ht', rfl⟩ := mem_map.mp (by simpa [ageFirst] using ht)
      exact (hlow t' ht').1
    have hstop : rest ≠ [] → stopped = true := by
      intro hne
      by_contra hoff
      obtain ⟨hfront, hprev⟩ := hran (by simpa using hoff)
      rw [hfront, reverse_reverse] at hrev
      rcases hstops with hlast | hend | hshort | ⟨t, ht, hcase⟩
      · exact hboundary (Or.inl hlast)
      · exact hboundary (Or.inr hend)
      · have hlength := congrArg length hqueue
        have hpos := length_pos_iff.mpr hne
        simp only [Thread.queue, length_map, length_append, length_cons] at hlength
        omega
      · rw [hrev] at ht
        obtain ⟨hidle, hlt⟩ : t.pkt.isCurrentRun s.pc = false ∧
            t.pkt.priority < task.pkt.priority := by
          rcases mem_cons.mp ht with rfl | hmem
          · exact hprev
          · exact hlow t hmem
        rcases hcase with hrun | hle
        · simp [hidle] at hrun
        · omega
    have hfound : insertSearch (submitTask task lastWord s).pc task.pkt.priority []
        (submitTask task lastWord s).taskBusyList.reverse = some (before, prev, rest, stopped) :=
      hsearch
    rw [hfound]
    exact h.insertTask hwf hapart hown hout hqueue hboundary hrest hstop

end

/-- `cmdq_task_exec` keeps the chain. -/
theorem exec {ptr : Option ℕ} {pkt : ThreadPkt} {lastWord : ℕ}
    (hclient : ClientPkt shift s pkt lastWord) (hstops : SearchStops s pkt) :
    ChainInv shift (cmdqTaskExec shift ptr pkt lastWord s) := by
  rcases cmdqTaskExec_cases shift ptr pkt lastWord s with
    heq | ⟨task, rfl, -, hbase, ⟨hlist, heq⟩ | ⟨hbusy, heq⟩⟩
  · rw [heq]
    exact h
  all_goals
    have hwf : PktWf shift task.unaged.pkt task.unaged.paBase :=
      { hclient.wf task.paBase hbase with }
    have hown : ∀ pa, jumpTarget shift lastWord = some pa → pa = task.paBase := fun pa hjump =>
      some.inj ((hclient.lastWord pa hjump).symm.trans hbase)
    rw [heq]
  · have hidle : s.timeoutTask = none := h.idle_of_no_window fun _ hwindow => by
      obtain ⟨first, tasks, hcons, -⟩ := hwindow.list
      simp [Thread.queue, hlist] at hcons
    refine ⟨⟨?_, pairwise_singleton _ _, .singleton _, ?_⟩,
      .first hwf.isCurrentRun_base (.singleton _), ?_⟩
    · intro t ht
      rw [mem_singleton.mp ht]
      exact hwf
    · intro t ht
      obtain rfl : task.unaged = t := some.inj ht
      refine ⟨rfl, fun pa hpa => hown pa ?_⟩
      exact (congrArg (jumpTarget shift) (Function.update_self ..)).symm.trans hpa
    · intro ptr hptr
      cases hidle.symm.trans hptr
  · refine h.addToThread hwf (fun t ht => ?_) hown (hclient.pc_outside hbusy) hbusy hstops
    obtain ⟨t', ht', rfl⟩ := mem_map.mp ht
    exact hclient.apart t' ht'

/-- Every step under its condition keeps the chain. -/
theorem step {e : ThreadEvent} (hok : ChainStep shift s e) :
    ChainInv shift (threadStep shift s e) := by
  cases e with
  | exec ptr pkt lastWord => exact h.exec hok.1 hok.2
  | irq irq => exact h.irqHandler irq
  | timeout exceed exceedAgain irq => exact h.timeout hok
  | timeoutRelock => exact h.relock
  | removeTask pkt irq => exact h.removeTask hok
  | stop irq => exact hok.elim
  | move pc =>
    simp only [threadStep]
    split_ifs with hruns
    · have hrunning : s.suspended = false := by
        simp only [and_eq_true, not_eq_true'] at hruns
        exact hruns.2
      exact h.move hok (h.idle_of_no_window fun _ hwindow => by
        simp [hwindow.suspended] at hrunning)
    · exact h

/-- With the invariant, the engine goes through the queue in order. -/
theorem chainOk : ChainOk shift s where
  linked before task next after hsplit := by
    have hqueue : s.queue = (before.map Task.unaged ++ [task.unaged]) ++
        (next :: after).map Task.unaged := by simp [Thread.queue, hsplit]
    have hlinked : ∀ front, (front ++ [task.unaged] ++ (next :: after).map Task.unaged).IsChain
        (LinkedTo shift s.mem) → LinkedTo shift s.mem task next := fun front hchain =>
      (isChain_append.mp hchain).2.2 task.unaged (by simp) next.unaged rfl
    by_cases hlater : ∃ t ∈ next :: after, t.pkt.isCurrentRun s.pc = true
    · exact Or.inl (Or.inr hlater)
    have hnone : onward s.pc ((next :: after).map Task.unaged) = [] := by
      rw [onward_unaged, onward_eq_nil.mpr (by simpa using hlater)]
      rfl
    have hplaced := h.placed
    rw [hqueue] at hplaced
    rcases onward_concat s.pc (before.map Task.unaged) task.unaged with hnil | ⟨front, hfront⟩
    · have hbetween := hplaced.between (by rw [onward_append, hnil, hnone]; rfl)
      exact hbetween.imp Or.inl fun hleaving => hlinked _ (by simpa using hleaving.links)
    · refine Or.inr (hlinked front ?_)
      have hlinks := hplaced.links
      rw [onward_append, hfront] at hlinks
      simpa using hlinks
  target_queued task htask pa hpa := by
    obtain ⟨next, hnext, heq⟩ := h.queued.target_queued (mem_map_of_mem htask) hpa
    obtain ⟨next', hnext', rfl⟩ := mem_map.mp hnext
    exact ⟨next', hnext', heq⟩
  endAddr_eq task htask := by
    refine (h.queued.last task.unaged ?_).1
    rw [Thread.queue, getLast?_map, htask]
    rfl

end

end ChainInv

/-- In every run of `ChainStep` the chain is in order. -/
theorem chainOk_of_reaches {mem : ℕ → ℕ} {s : Thread}
    (hrun : Reaches (threadStep shift) (ChainStep shift) (Thread.init mem) s) :
    ChainOk shift s := by
  have hinv : ChainInv shift s :=
    hrun.invariant (ChainInv.nil rfl rfl) fun _ _ hreached hok => hreached.step hok
  exact hinv.chainOk

/-- A thread before its first task. -/
def idleThread : Thread := Thread.init fun _ => 0

/-- Three tasks are queued. -/
def threeTasks : List ThreadEvent :=
  [.exec (some 1) (smallPkt 1 0x1000) endJump, .exec (some 2) (smallPkt 2 0x2000) endJump,
    .exec (some 3) (smallPkt 3 0x3000) endJump]

/-- The second of three queued tasks is removed. -/
def removedMiddle : List ThreadEvent := threeTasks ++ [.removeTask 2 noIrq]

/-- The done interrupt of the thread. -/
def doneIrq : IrqInput := { usage := true, irqFlag := 1 }

/-- The first task is retired with the engine at its last command, and a task of higher priority
than the other two is queued. -/
def overtaken : List ThreadEvent :=
  threeTasks ++ [.move 0x1008, .irq doneIrq,
    .exec (some 4) { smallPkt 4 0x4000 with priority := 9 } endJump]

theorem smallPkt_client {s : Thread} {id pa : ℕ} (hbelow : pa + 4096 ≤ 2 ^ 32)
    (haligned : 2 ^ 3 ∣ pa) (hapart : ∀ task ∈ s.taskBusyList, ∀ a ∈ task.pkt.bufs, PagesApart a pa)
    (hpc : s.taskBusyList ≠ [] → PagesApart s.pc pa) :
    ClientPkt 3 s (smallPkt id pa) endJump where
  wf paBase hbase := by
    obtain rfl : pa = paBase := by simpa [smallPkt] using hbase
    have hoff : appendOffset 3824 = 16 := by decide
    refine ⟨rfl, ?_, haligned, pairwise_singleton _ _, ?_, ?_⟩
    · simpa [smallPkt, cmdqBufAllocSize] using hbelow
    · show 3824 ≤ cmdqCmdBufferSize - cmdqInstSize
      decide
    · simp [ThreadPkt.endPa, smallPkt, hoff]
  apart task htask a ha b hb := by
    obtain rfl : b = pa := by simpa [smallPkt] using hb
    exact hapart task htask a ha
  pc_outside hbusy := by
    rintro ⟨base, hbase, hlo, hhi⟩
    obtain rfl : base = pa := by simpa [smallPkt] using hbase
    rcases hpc hbusy with hleft | hright <;> unfold cmdqBufAllocSize at * <;> omega
  lastWord pa' hjump := by
    have hnone : jumpTarget 3 endJump = none := by decide
    simp [hnone] at hjump

/-- The submissions of three tasks meet the condition. -/
theorem runOk_threeTasks : RunOk (threadStep 3) (ChainStep 3) idleThread threeTasks := by
  refine ⟨⟨smallPkt_client ?_ ?_ ?_ ?_, ?_⟩, ⟨smallPkt_client ?_ ?_ ?_ fun _ => ?_, ?_⟩,
    ⟨smallPkt_client ?_ ?_ ?_ fun _ => ?_, ?_⟩, trivial⟩
  case refine_5 => exact Or.inr (Or.inr (Or.inl (by decide)))
  case refine_10 => exact Or.inr (Or.inr (Or.inl (by decide)))
  case refine_15 => exact Or.inr (Or.inr (Or.inr (by decide)))
  all_goals decide

/-- Three queued tasks are linked. -/
theorem chainOk_threeTasks : ChainOk 3 (threeTasks.foldl (threadStep 3) idleThread) :=
  chainOk_of_reaches (Reaches.start.foldl runOk_threeTasks)

/-- After the second of three tasks has been removed, the first one still jumps to it; and a task
put in front of all others behind the engine's back is not linked to the next. -/
theorem not_chainOk_removed_overtaken :
    ¬ChainOk 3 (removedMiddle.foldl (threadStep 3) idleThread) ∧
    ¬ChainOk 3 (overtaken.foldl (threadStep 3) idleThread) := by
  constructor
  · intro h
    let first : Task := { ptr := 1, serial := 0, paBase := 0x1000, pkt := smallPkt 1 0x1000 }
    have hfirst : (removedMiddle.foldl (threadStep 3) idleThread).taskBusyList.head? =
        some first := rfl
    obtain ⟨next, hnext, htarget⟩ :=
      h.target_queued first (mem_of_head? hfirst) 0x2000 (by decide)
    have hgone : ∀ task ∈ (removedMiddle.foldl (threadStep 3) idleThread).taskBusyList,
        task.paBase ≠ 0x2000 := by decide
    exact hgone next hnext htarget
  · intro h
    let second : Task := { ptr := 2, serial := 1, paBase := 0x2000, pkt := smallPkt 2 0x2000 }
    let fourth : Task :=
      { ptr := 4, serial := 3, paBase := 0x4000, pkt := { smallPkt 4 0x4000 with priority := 9 } }
    let third : Task :=
      { ptr := 3, serial := 2, paBase := 0x3000, pkt := { smallPkt 3 0x3000 with priority := 5 } }
    have hlist : (overtaken.foldl (threadStep 3) idleThread).taskBusyList =
        [second] ++ fourth :: third :: [] := rfl
    have hlink : fourth.finalJump 3 (overtaken.foldl (threadStep 3) idleThread).mem = none := by
      decide
    rcases h.linked _ _ _ _ hlist with hpassed | hlinked
    · rcases hpassed with hend | hrun
      · revert hend
        decide
      · revert hrun
        decide
    · unfold LinkedTo at hlinked
      simp [hlink] at hlinked

end Mt8169.Cmdq
