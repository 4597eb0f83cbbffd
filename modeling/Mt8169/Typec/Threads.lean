import Mathlib.Data.List.FinRange
import Mt8169.Lib.Processes
import Mt8169.Typec.OneTimer
import Mt8169.Typec.Timer

/-!
# Expiries, calls and the timer thread

The timer calls run in any number of threads, between which the processor may change wherever a lock
is taken or left. A kernel timer that expires leaves its queue first, and its callback sets the tick
a moment later; in between it cannot be cancelled. The timer thread takes the ticks and the enable
mask as it finds them, runs the handlers of the timers in both, and clears the tick of a timer after
its handler. A handler makes timer calls itself. Each arming has a number here, which the program
does not have: it says to which `tcpc_enable_timer` an expiry belongs.
-/

namespace Mt8169.Typec

open Function

/-- What a thread does next. -/
inductive Instr (l : TimerLayout) where
  /-- A call is entered: it samples the enable mask, if it does so before it takes a lock. -/
  | enter (c : TimerCall)
  /-- Take `timer_lock`. -/
  | lock
  | unlock
  /-- A range of timers is sampled, to be reset. -/
  | sampleRange (start stop : ℕ)
  /-- `hrtimer_try_to_cancel`. -/
  | cancel (i : Fin l.nr)
  | clear (i : Fin l.nr)
  | dec
  | stopWakeUp
  | set (i : Fin l.nr) (maskPrev : BitVec 64)
  | adjust (maskPrev : BitVec 64)
  /-- `hrtimer_start`, for an arming. -/
  | start (i : Fin l.nr) (arming : ℕ)
  deriving DecidableEq, Repr

/-- What all threads share. -/
structure Timers (l : TimerLayout) where
  dev : TimerState
  timerLock : Bool
  /-- The kernel timers that are running, with their armings. -/
  queued : Fin l.nr → Option ℕ
  /-- The kernel timers whose callback is running. -/
  flight : Fin l.nr → Option ℕ
  /-- The number of the latest arming. -/
  latest : Fin l.nr → ℕ
  /-- The arming whose callback set the tick last. -/
  ticked : Fin l.nr → ℕ
  /-- All expiries. -/
  expired : List (Fin l.nr × ℕ)

variable {l : TimerLayout}

namespace Instr

/-- The steps by which an armed timer is disarmed. -/
def disarm (i : Fin l.nr) : List (Instr l) := [cancel i, clear i, dec]

/-- What a call does after its first sample of the mask. -/
def callCode (l : TimerLayout) (mask : BitVec 64) : TimerCall → List (Instr l)
  | .enable timerId =>
    if h : timerId < l.nr then
      lock :: (if l.typecStart ≤ timerId then [sampleRange l.typecStart l.nr] else []) ++
        [set ⟨timerId, h⟩ mask]
    else []
  | .restart timerId =>
    (if mask.getLsbD timerId then [enter (.disable timerId)] else []) ++ [enter (.enable timerId)]
  | .disable timerId =>
    if h : timerId < l.nr then if mask.getLsbD timerId then disarm ⟨timerId, h⟩ else []
    else []
  | .resetPe => [lock, sampleRange 0 l.peEnd, unlock]
  | .resetTypecDebounce => [lock, sampleRange l.typecStart l.nr, unlock]
  | .resetTypecTry => [lock, sampleRange l.tryStart l.typecStart, unlock]

/-- What the reset of a range does after its sample of the mask. -/
def rangeCode (l : TimerLayout) (mask : BitVec 64) (start stop : ℕ) : List (Instr l) :=
  (List.finRange l.nr).flatMap (fun i : Fin l.nr =>
    if start ≤ i.val ∧ i.val < stop ∧ mask.getLsbD i then disarm i else []) ++
    (if stop = l.nr then [stopWakeUp] else [])

end Instr

namespace Timers

/-- No timer is enabled, and no kernel timer is running. -/
def start (l : TimerLayout) : Timers l where
  dev := .start 0 false
  timerLock := false
  queued := fun _ => none
  flight := fun _ => none
  latest := fun _ => 0
  ticked := fun _ => 0
  expired := []

variable (s : Timers l) (i : Fin l.nr)

/-- One instruction: the instructions that are to follow and the new state; none if the thread has
to wait. -/
def exec : Instr l → Option (List (Instr l) × Timers l)
  | .enter c => some (Instr.callCode l s.dev.timerEnableMask c, s)
  | .lock => if s.timerLock then none else some ([], { s with timerLock := true })
  | .unlock => some ([], { s with timerLock := false })
  | .sampleRange start stop => some (Instr.rangeCode l s.dev.timerEnableMask start stop, s)
  | .cancel i =>
    if s.flight i = none then some ([], { s with queued := update s.queued i none })
    else some ([], s)
  | .clear i => some ([], { s with dev := s.dev.clearTimerEnableMask i })
  | .dec => some ([], { s with dev := s.dev.decIfPositive })
  | .stopWakeUp => some ([], { s with dev := { s.dev with wakeUpTimer := false } })
  | .set i maskPrev =>
    some ([.adjust maskPrev, .unlock, .start i (s.latest i + 1)],
      { s with
        dev := s.dev.setTimerEnableMask i
        latest := update s.latest i (s.latest i + 1) })
  | .adjust maskPrev =>
    some ([], { s with
      dev := if maskPrev ^^^ s.dev.timerEnableMask ≠ 0#64 then s.dev.incPending
        else s.dev.decIfPositive })
  | .start i arming => some ([], { s with queued := update s.queued i (some arming) })

/-- A thread goes on. -/
def advance (_ : ℕ) : List (Instr l) → List (Instr l) × Timers l
  | [] => ([], s)
  | instr :: rest =>
    match s.exec instr with
    | none => (instr :: rest, s)
    | some (pushed, s') => (pushed ++ rest, s')

/-- A kernel timer expires. Its callback does not run twice at a time. -/
def expire : Timers l :=
  match s.queued i, s.flight i with
  | some g, none =>
    { s with
      queued := update s.queued i none
      flight := update s.flight i (some g)
      expired := s.expired ++ [(i, g)] }
  | _, _ => s

/-- The callback of a kernel timer sets the tick. -/
def callback : Timers l :=
  match s.flight i with
  | some g =>
    { s with
      dev := { s.dev with timerTick := BitMask.insert s.dev.timerTick i }
      flight := update s.flight i none
      ticked := update s.ticked i g }
  | none => s

def clearTimerTick : Timers l :=
  { s with dev := { s.dev with timerTick := BitMask.erase s.dev.timerTick i } }

end Timers

/-- The loops of `tcpc_handle_timer_triggered`, before the timer `i`. -/
structure Scan (l : TimerLayout) where
  triggered : BitVec 64
  /-- The armings whose expiries the ticks stand for. -/
  armings : Fin l.nr → ℕ
  enableMask : BitVec 64
  i : ℕ
  /-- The second loop, with the Type-C timers. -/
  second : Bool
  /-- The handler of the timer `i` has been called. -/
  called : Bool

/-- The timer thread. -/
inductive Pass (l : TimerLayout) where
  /-- It waits for a tick. -/
  | wait
  | enter
  /-- The ticks have been taken. -/
  | ticked (triggered : BitVec 64) (armings : Fin l.nr → ℕ)
  | scan (p : Scan l)

/-- Where the loop ends. -/
def Scan.stop (p : Scan l) : ℕ := if p.second then l.nr else l.peEnd

theorem Scan.stop_le (p : Scan l) : p.stop ≤ l.nr := by
  have := l.peEnd_le_tryStart
  have := l.tryStart_le_typecStart
  have := l.typecStart_le_nr
  rw [stop]
  split
  · exact Nat.le_refl _
  · omega

/-- The whole system. The first thread is the timer thread inside a handler. -/
structure TimerSystem (l : TimerLayout) where
  sys : Processes.System (Timers l) (List (Instr l))
  pass : Pass l
  handled : List (Fin l.nr × Handling)

inductive TimerEvent (l : TimerLayout) where
  /-- A thread that has nothing to do makes a call. -/
  | call (t : ℕ) (c : TimerCall)
  | run (t : ℕ)
  /-- The timer thread goes on outside its handlers. If it enters a handler now, that one is going
  to make the calls given. -/
  | timer (calls : List TimerCall)
  | expire (i : Fin l.nr)
  | callback (i : Fin l.nr)

namespace TimerSystem

/-- No timer is enabled, and there are threads besides the timer thread. -/
def start (l : TimerLayout) (threads : ℕ) : TimerSystem l where
  sys := ⟨.start l, List.replicate (threads + 1) []⟩
  pass := .wait
  handled := []

/-- The timer calls of a handler. The policy engine's handlers disable their timer first. -/
def handlerCode (i : Fin l.nr) (calls : List TimerCall) : List (Instr l) :=
  ((if i.val < l.peEnd then [TimerCall.disable i] else []) ++ calls).map .enter

/-- The timer `i` of a loop: the handler is called for a timer that was seen armed and expired, and
after it the tick is cleared. -/
def examine (w : TimerSystem l) (p : Scan l) (h : p.i < l.nr) (calls : List TimerCall) :
    TimerSystem l :=
  let i : Fin l.nr := ⟨p.i, h⟩
  if ¬ p.triggered.getLsbD i then { w with pass := .scan { p with i := p.i + 1, called := false } }
  else if p.enableMask.getLsbD i ∧ ¬ p.called then
    { sys := { w.sys with procs := w.sys.procs.set 0 (handlerCode i calls) }
      pass := .scan { p with called := true }
      handled := w.handled ++
        [(i, ⟨p.armings i, w.sys.shared.dev.timerEnableMask.getLsbD i, w.sys.shared.latest i⟩)] }
  else
    { w with
      sys := { w.sys with shared := w.sys.shared.clearTimerTick i }
      pass := .scan { p with i := p.i + 1, called := false } }

/-- The timer thread goes on. -/
def handleTimerTriggered (w : TimerSystem l) (calls : List TimerCall) : TimerSystem l :=
  let s := w.sys.shared
  match w.pass with
  | .wait => if s.dev.timerTick = 0 then w else { w with pass := .enter }
  | .enter => { w with pass := .ticked s.dev.timerTick s.ticked }
  | .ticked triggered armings =>
    { w with
      sys := { w.sys with shared := { s with dev := s.dev.incPending } }
      pass := .scan ⟨triggered, armings, s.dev.timerEnableMask, 0, false, false⟩ }
  | .scan p =>
    if h : p.i < p.stop then w.examine p (Nat.lt_of_lt_of_le h p.stop_le) calls
    else if p.second then
      { w with
        sys := { w.sys with shared := { s with dev := s.dev.decIfPositive } }
        pass := .wait }
    else { w with pass := .scan { p with enableMask := s.dev.timerEnableMask, second := true } }

def step (w : TimerSystem l) : TimerEvent l → TimerSystem l
  | .call t c =>
    if t ≠ 0 ∧ w.sys.procs[t]? = some [] then
      { w with sys := { w.sys with procs := w.sys.procs.set t [.enter c] } }
    else w
  | .run t => { w with sys := w.sys.move Timers.advance t }
  | .timer calls => if w.sys.procs[0]? = some [] then w.handleTimerTriggered calls else w
  | .expire i => { w with sys := { w.sys with shared := w.sys.shared.expire i } }
  | .callback i => { w with sys := { w.sys with shared := w.sys.shared.callback i } }

end TimerSystem

end Mt8169.Typec
