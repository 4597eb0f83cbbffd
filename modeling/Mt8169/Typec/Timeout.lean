import Mt8169.Typec.Threads

/-!
# Which expiries are handled

The timer thread decides on samples of the ticks and of the enable mask, and clears a tick after the
handler has run. So a handler runs for a timer that has been disabled since the sample, and the
expiry of a timer that its own handler has armed again is wiped out if it comes before the tick is
cleared. Where calls and callbacks keep away from the timers of the present pass, and a timer is
armed only when nothing of its last arming is left, each timer lives as `OneTimer` says, and the
handlers are right.
-/

namespace Mt8169.Typec

open List Function Option Nat

open Processes (System)

variable {l : TimerLayout}

/-- The instruction starts a kernel timer. -/
def Instr.isStart (i : Fin l.nr) : Instr l → Bool
  | .start j _ => decide (j = i)
  | _ => false

/-- What a pass has still to do for a timer. -/
def Pass.watch (pass : Pass l) (i : Fin l.nr) : Watch :=
  match pass with
  | .wait | .enter => .none
  | .ticked triggered armings =>
    if triggered.getLsbD i then .due (armings i) false else .none
  | .scan p =>
    if p.triggered.getLsbD i = false ∨ i < p.i then .none
    else if p.i = i ∧ p.called then .closing
    else if ¬ p.second ∧ l.peEnd ≤ i then .due (p.armings i) false
    else if p.enableMask.getLsbD i then .due (p.armings i) true
    else .closing

/-- The timer thread waits for a tick. -/
def Pass.isWait : Pass l → Bool
  | .wait => true
  | .enter | .ticked _ _ | .scan _ => false

theorem Pass.watch_of_isWait {pass : Pass l} (h : pass.isWait = true) (i : Fin l.nr) :
    pass.watch i = .none := by
  cases pass with
  | wait => rfl
  | enter | ticked | scan => simp [isWait] at h

/-- One of the timers. -/
def Timers.view (s : Timers l) (i : Fin l.nr) (starting : ℕ) (watch : Watch)
    (handled : List Handling) : OneTimer where
  armed := s.dev.timerEnableMask.getLsbD i
  tick := s.dev.timerTick.getLsbD i
  queued := s.queued i
  flight := s.flight i
  latest := s.latest i
  ticked := s.ticked i
  starting := starting
  watch := watch
  expired := (s.expired.filter (·.1 = i)).map (·.2)
  handled := handled

namespace TimerSystem

/-- The threads that have armed a timer and have not yet started its kernel timer. -/
def starting (w : TimerSystem l) (i : Fin l.nr) : ℕ :=
  System.total (countP (Instr.isStart i)) w.sys.procs

/-- One of the timers. -/
def view (w : TimerSystem l) (i : Fin l.nr) : OneTimer :=
  w.sys.shared.view i (w.starting i) (w.pass.watch i) ((w.handled.filter (·.1 = i)).map (·.2))

end TimerSystem

/-- An instruction keeps away from what is left of the last arming of a timer and from what the
present pass is going to do. -/
def Instr.Apart (w : TimerSystem l) : Instr l → Prop
  | .set i _ => (w.view i).tick = false ∧ (w.view i).flight = none ∧ (w.view i).starting = 0 ∧
      (w.view i).NotDue
  | .clear i => (w.view i).NotChosen
  | _ => True

instance (w : TimerSystem l) : ∀ instr : Instr l, Decidable (instr.Apart w)
  | .set i _ => inferInstanceAs (Decidable ((w.view i).tick = false ∧ (w.view i).flight = none ∧
      (w.view i).starting = 0 ∧ (w.view i).NotDue))
  | .clear i => inferInstanceAs (Decidable (w.view i).NotChosen)
  | .enter _ | .lock | .unlock | .sampleRange _ _ | .cancel _ | .dec | .stopWakeUp | .adjust _
  | .start _ _ => .isTrue trivial

namespace TimerSystem

/-- The parties keep apart: besides what is asked of the instructions, a timer that is being armed
anew does not expire before it is started anew, and no callback comes between the handler of its
timer and the clearing of the tick. -/
def Apart (w : TimerSystem l) : TimerEvent l → Prop
  | .run t => ∀ instr ∈ (w.sys.procs[t]?.bind head?), instr.Apart w
  | .expire i => ∀ g ∈ (w.view i).queued, g = (w.view i).latest
  | .callback i => (w.view i).watch ≠ .closing
  | .call _ _ | .timer _ => True

instance (w : TimerSystem l) : ∀ e : TimerEvent l, Decidable (w.Apart e)
  | .run t => inferInstanceAs (Decidable (∀ instr ∈ (w.sys.procs[t]?.bind head?), _))
  | .expire i => inferInstanceAs (Decidable (∀ g ∈ (w.view i).queued, _))
  | .callback i => inferInstanceAs (Decidable ((w.view i).watch ≠ .closing))
  | .call _ _ | .timer _ => .isTrue trivial

/-- How often the handler has run for an arming. -/
def timesHandled (w : TimerSystem l) (i : Fin l.nr) (arming : ℕ) : ℕ :=
  w.handled.countP fun h => h.1 = i ∧ h.2.arming = arming

/-- How often an arming has expired. -/
def timesExpired (w : TimerSystem l) (i : Fin l.nr) (arming : ℕ) : ℕ :=
  w.sys.shared.expired.count (i, arming)

/-- The timer thread waits, and there is nothing for it to do. -/
def Quiet (w : TimerSystem l) : Prop :=
  w.pass.isWait = true ∧ w.sys.shared.dev.timerTick = 0 ∧ ∀ i, w.sys.shared.flight i = none

/-- The handlers run as they should: each run is for the latest arming of an armed timer, no expiry
is handled twice, and when the timer thread has come to rest, every expiry of an arming that has not
been disabled or replaced since has been handled once. -/
structure HandledRight (w : TimerSystem l) : Prop where
  current : ∀ h ∈ w.handled, h.2.Current
  once : ∀ i g, w.timesHandled i g ≤ w.timesExpired i g ∧ w.timesExpired i g ≤ 1
  complete : w.Quiet → ∀ i : Fin l.nr, w.sys.shared.dev.Armed i →
    0 < w.timesExpired i (w.sys.shared.latest i) → w.timesHandled i (w.sys.shared.latest i) = 1

end TimerSystem

namespace Instr

theorem isStart_callCode (i : Fin l.nr) (mask : BitVec 64) (c : TimerCall) :
    ∀ instr ∈ callCode l mask c, instr.isStart i = false := by
  intro instr hin
  cases c <;> simp only [callCode] at hin <;> grind [isStart, disarm]

theorem isStart_rangeCode (i : Fin l.nr) (mask : BitVec 64) (start stop : ℕ) :
    ∀ instr ∈ rangeCode l mask start stop, instr.isStart i = false := by
  intro instr hin
  simp only [rangeCode, mem_append, mem_flatMap] at hin
  grind [isStart, disarm]

variable {code : List (Instr l)}

theorem countP_isStart_eq_zero {i : Fin l.nr}
    (h : ∀ instr ∈ code, instr.isStart i = false) : code.countP (isStart i) = 0 := by
  rw [countP_eq_zero]
  intro instr hin
  simp [h instr hin]

theorem start_not_mem {i : Fin l.nr} (hzero : code.countP (isStart i) = 0) (g : ℕ) :
    .start i g ∉ code := by
  intro hin
  have hnot := countP_eq_zero.mp hzero _ hin
  simp [isStart] at hnot

end Instr

/-- A step of the system leaves a timer as it is or is a step of it. -/
abbrev OneTimer.Moves (v v' : OneTimer) : Prop := v' = v ∨ v.Step v'

namespace Timers

variable {s s' : Timers l} {instr : Instr l} {pushed : List (Instr l)} {i : Fin l.nr}
  {n n' : ℕ} {watch : Watch} {handled : List Handling}

theorem view_clearTimerEnableMask (j : Fin l.nr) :
    view { s with dev := s.dev.clearTimerEnableMask j } i n watch handled =
      if j = i then { s.view i n watch handled with armed := false, tick := false }
      else s.view i n watch handled := by
  simp only [view, TimerState.clearTimerEnableMask, BitMask.getLsbD_erase]
  grind

theorem view_queued (j : Fin l.nr) (q : Option ℕ) :
    view { s with queued := update s.queued j q } i n watch handled =
      if j = i then { s.view i n watch handled with queued := q }
      else s.view i n watch handled := by
  simp only [view, update_apply]
  grind

theorem view_setTimerEnableMask (j : Fin l.nr) :
    view { s with
        dev := s.dev.setTimerEnableMask j
        latest := update s.latest j (s.latest j + 1) } i n watch handled =
      if j = i then
        { s.view i n watch handled with
          armed := true
          latest := (s.view i n watch handled).latest + 1 }
      else s.view i n watch handled := by
  have hj : j.val < 64 := lt_of_lt_of_le j.isLt l.nr_le
  simp only [view, TimerState.setTimerEnableMask, BitMask.getLsbD_insert _ hj,
    update_apply]
  grind

/-- Only the instruction that arms a timer goes on to start its kernel timer. -/
theorem exec_pushed (hexec : s.exec instr = some (pushed, s')) (i : Fin l.nr) :
    (s'.latest i = s.latest i ∧ pushed.countP (Instr.isStart i) = 0) ∨
      ∃ mask, instr = .set i mask ∧
        pushed = [.adjust mask, .unlock, .start i (s'.latest i)] := by
  cases instr with
  | enter c =>
    obtain ⟨rfl, rfl⟩ := Prod.mk.inj (some.inj hexec)
    exact .inl ⟨rfl, Instr.countP_isStart_eq_zero (Instr.isStart_callCode i _ c)⟩
  | sampleRange start stop =>
    obtain ⟨rfl, rfl⟩ := Prod.mk.inj (some.inj hexec)
    exact .inl ⟨rfl, Instr.countP_isStart_eq_zero (Instr.isStart_rangeCode i _ start stop)⟩
  | set j mask =>
    obtain ⟨rfl, rfl⟩ := Prod.mk.inj (some.inj hexec)
    by_cases hj : j = i
    · subst hj
      exact .inr ⟨mask, rfl, by simp⟩
    · exact .inl ⟨by simp [Ne.symm hj], by simp [Instr.isStart, hj]⟩
  | lock | cancel =>
    simp only [exec] at hexec
    split_ifs at hexec
    all_goals
      obtain ⟨rfl, rfl⟩ := Prod.mk.inj (some.inj hexec)
      exact .inl ⟨rfl, rfl⟩
  | unlock | clear | dec | stopWakeUp | adjust | start =>
    obtain ⟨rfl, rfl⟩ := Prod.mk.inj (some.inj hexec)
    exact .inl ⟨rfl, rfl⟩

/-- An instruction moves each timer by its steps. -/
theorem exec_view (hexec : s.exec instr = some (pushed, s'))
    (hn : n' + (if instr.isStart i then 1 else 0) = n + pushed.countP (Instr.isStart i))
    (hset : ∀ mask, instr = .set i mask → (s.view i n watch handled).tick = false ∧
      s.flight i = none ∧ n = 0 ∧ (s.view i n watch handled).NotDue)
    (hclear : instr = .clear i → (s.view i n watch handled).NotChosen)
    (hstart : ∀ g, instr = .start i g → g = s.latest i) :
    (s.view i n watch handled).Moves (s'.view i n' watch handled) := by
  -- how many threads are going to start the timer changes when it is armed or started only
  have hsame : (∀ mask, instr ≠ .set i mask) → instr.isStart i = false → n' = n := by
    intro hnoset hnostart
    rcases exec_pushed hexec i with ⟨-, hzero⟩ | ⟨mask, hinstr, -⟩
    · simpa [hnostart, hzero] using hn
    · exact absurd hinstr (hnoset mask)
  cases instr with
  | set j mask =>
    obtain ⟨rfl, rfl⟩ := Prod.mk.inj (some.inj hexec)
    rw [view_setTimerEnableMask]
    split_ifs with hj
    · obtain rfl : n' = n + 1 := by simpa [Instr.isStart, hj] using hn
      obtain ⟨htick, hflight, hstarting, hdue⟩ := hset mask (by rw [hj])
      exact .inr (.arm htick hflight hstarting hdue)
    · obtain rfl := hsame (by simp [hj]) rfl
      exact .inl rfl
  | start j g =>
    obtain ⟨rfl, rfl⟩ := Prod.mk.inj (some.inj hexec)
    rw [view_queued]
    split_ifs with hj
    · obtain rfl : n = n' + 1 := by simpa [Instr.isStart, hj] using hn.symm
      obtain rfl := hstart g (by rw [hj])
      exact .inr (.start (succ_pos _))
    · obtain rfl := hsame (by simp) (by simp [Instr.isStart, hj])
      exact .inl rfl
  | clear j =>
    obtain rfl := hsame (by simp) rfl
    obtain ⟨rfl, rfl⟩ := Prod.mk.inj (some.inj hexec)
    rw [view_clearTimerEnableMask]
    split_ifs with hj
    · exact .inr (.disarm (hclear (by rw [hj])))
    · exact .inl rfl
  | cancel j =>
    obtain rfl := hsame (by simp) rfl
    simp only [exec] at hexec
    split_ifs at hexec <;> obtain ⟨rfl, rfl⟩ := Prod.mk.inj (some.inj hexec)
    · rw [view_queued]
      split_ifs
      · exact .inr .cancel
      · exact .inl rfl
    · exact .inl rfl
  | lock | adjust =>
    obtain rfl := hsame (by simp) rfl
    simp only [exec] at hexec
    split_ifs at hexec <;> obtain ⟨rfl, rfl⟩ := Prod.mk.inj (some.inj hexec) <;> exact .inl rfl
  | enter | unlock | sampleRange | dec | stopWakeUp =>
    obtain rfl := hsame (by simp) rfl
    obtain ⟨rfl, rfl⟩ := Prod.mk.inj (some.inj hexec)
    exact .inl rfl

theorem expire_view (j : Fin l.nr) (hlatest : ∀ g ∈ s.queued j, g = s.latest j) :
    (s.view i n watch handled).Moves ((s.expire j).view i n watch handled) := by
  rw [expire]
  split
  · rename_i g hqueued hflight
    obtain rfl := hlatest g hqueued
    by_cases hj : j = i
    · subst hj
      right
      convert OneTimer.Step.expire (v := s.view j n watch handled) hqueued using 1
      simp [view]
    · left
      simp [view, Ne.symm hj, hj]
  · exact .inl rfl

theorem callback_view (j : Fin l.nr) (hclosing : j = i → watch ≠ .closing) :
    (s.view i n watch handled).Moves ((s.callback j).view i n watch handled) := by
  rw [callback]
  split
  · rename_i g hflight
    have hlt : j.val < 64 := lt_of_lt_of_le j.isLt l.nr_le
    by_cases hj : j = i
    · subst hj
      right
      convert OneTimer.Step.callback (v := s.view j n watch handled) hflight (hclosing rfl) using 1
      simp [view, BitMask.getLsbD_insert _ hlt]
    · left
      have hval : i.val ≠ j.val := fun heq => hj (Fin.ext heq.symm)
      simp [view, Ne.symm hj, BitMask.getLsbD_insert _ hlt, hval]
  · exact .inl rfl

theorem view_clearTimerTick (j : Fin l.nr) :
    (s.clearTimerTick j).view i n watch handled =
      if j = i then { s.view i n watch handled with tick := false }
      else s.view i n watch handled := by
  simp only [view, clearTimerTick, BitMask.getLsbD_erase]
  grind

end Timers

namespace TimerSystem

variable {w : TimerSystem l} {t : ℕ} {i : Fin l.nr} {p : Scan l} {e : TimerEvent l}

theorem move_cases (sys : System (Timers l) (List (Instr l))) (t : ℕ) :
    sys.move Timers.advance t = sys ∨
      ∃ instr rest pushed s', sys.procs[t]? = some (instr :: rest) ∧
        sys.shared.exec instr = some (pushed, s') ∧
        sys.move Timers.advance t = ⟨s', sys.procs.set t (pushed ++ rest)⟩ := by
  have hsame {code : List (Instr l)} (hp : sys.procs[t]? = some code) :
      sys.procs.set t code = sys.procs := by
    obtain ⟨ht, rfl⟩ := List.getElem?_eq_some_iff.mp hp
    exact set_getElem_self ht
  rw [System.move]
  cases hp : sys.procs[t]? with
  | none => exact .inl rfl
  | some code =>
    cases code with
    | nil =>
      left
      simp only [Timers.advance, hsame hp]
    | cons instr rest =>
      cases hexec : sys.shared.exec instr with
      | none =>
        left
        simp only [Timers.advance, hexec, hsame hp]
      | some r =>
        right
        refine ⟨instr, rest, r.1, r.2, rfl, hexec, ?_⟩
        simp only [Timers.advance, hexec]

/-- Kernel timers are started for the latest arming. -/
def StartsCurrent (w : TimerSystem l) : Prop :=
  ∀ (t : ℕ) (code : List (Instr l)), w.sys.procs[t]? = some code →
    ∀ i g, .start i g ∈ code → g = w.sys.shared.latest i

/-- So does a step of a thread. -/
theorem view_run (hcurrent : w.StartsCurrent) (hapart : w.Apart (.run t)) (i : Fin l.nr) :
    (w.view i).Moves ((w.step (.run t)).view i) := by
  rcases move_cases w.sys t with hsame | ⟨instr, rest, pushed, s', hp, hexec, hmove⟩
  · left
    rw [step, hsame]
  · have happ : instr.Apart w := hapart instr (by simp [hp])
    have htotal := System.total_set (countP (Instr.isStart i)) hp (pushed ++ rest)
    rw [step, hmove]
    apply Timers.exec_view hexec
    · rw [countP_cons, countP_append] at htotal
      simp only [starting]
      omega
    · intro mask heq
      rw [heq] at happ
      exact happ
    · intro heq
      rw [heq] at happ
      exact happ
    · intro g heq
      exact hcurrent t _ hp i g (by simp [heq])

theorem starting_set_enter (hp : w.sys.procs[t]? = some []) (calls : List TimerCall)
    (i : Fin l.nr) :
    System.total (countP (Instr.isStart i)) (w.sys.procs.set t (calls.map .enter)) =
      w.starting i := by
  have htotal := System.total_set (countP (Instr.isStart i)) hp (calls.map .enter)
  have hzero : (calls.map (Instr.enter (l := l))).countP (Instr.isStart i) = 0 := by
    apply Instr.countP_isStart_eq_zero
    intro instr hin
    obtain ⟨c, -, rfl⟩ := mem_map.mp hin
    rfl
  rw [hzero, countP_nil] at htotal
  exact htotal

theorem view_call (t : ℕ) (c : TimerCall) (i : Fin l.nr) :
    (w.step (.call t c)).view i = w.view i := by
  rw [step]
  split_ifs with h
  · have hset := starting_set_enter h.2 [c] i
    exact congrArg (fun n => w.sys.shared.view i n _ _) hset
  · rfl

theorem view_pass (pass : Pass l) (i : Fin l.nr) :
    view { w with pass := pass } i = { w.view i with watch := pass.watch i } := rfl

theorem view_pass_of_eq {pass : Pass l} (hsame : pass.watch i = w.pass.watch i) :
    view { w with pass := pass } i = w.view i := by
  rw [view_pass, hsame]
  rfl

theorem watch_of_lt (hi : i < p.i) : (Pass.scan p).watch i = .none := by
  simp [Pass.watch, hi]

theorem watch_next (h : i.val = p.i → p.triggered.getLsbD i = false) :
    (Pass.scan { p with i := p.i + 1, called := false }).watch i = (Pass.scan p).watch i := by
  simp only [Pass.watch]
  grind

theorem watch_self (hstop : p.i < p.stop) (hi : i.val = p.i)
    (htriggered : p.triggered.getLsbD p.i = true) :
    (Pass.scan p).watch i =
      if p.enableMask.getLsbD p.i ∧ ¬ p.called then .due (p.armings i) true else .closing := by
  have hloop : p.second = false → p.i < l.peEnd := by
    intro hsecond
    simpa [Scan.stop, hsecond] using hstop
  simp only [Pass.watch]
  grind

/-- So does a round of the pass. -/
theorem view_examine (p : Scan l) (hpass : w.pass = .scan p) (hstop : p.i < p.stop)
    (hp : w.sys.procs[0]? = some []) (calls : List TimerCall) (i : Fin l.nr) :
    (w.view i).Moves ((w.examine p (lt_of_lt_of_le hstop p.stop_le) calls).view i) := by
  have hlt : p.i < l.nr := lt_of_lt_of_le hstop p.stop_le
  have hwatch : (w.view i).watch = (Pass.scan p).watch i := by rw [← hpass]; rfl
  have hne (hi : i.val ≠ p.i) : (⟨p.i, hlt⟩ : Fin l.nr) ≠ i := fun heq => hi (by rw [← heq])
  simp only [examine]
  split_ifs with htriggered hcall
  · have hset := starting_set_enter hp
      ((if p.i < l.peEnd then [TimerCall.disable p.i] else []) ++ calls) i
    by_cases hi : i.val = p.i
    · obtain rfl : (⟨p.i, hlt⟩ : Fin l.nr) = i := Fin.ext hi.symm
      rw [watch_self hstop rfl htriggered, if_pos hcall] at hwatch
      right
      convert OneTimer.Step.handle hwatch using 1
      simp only [view, starting, handlerCode, hset]
      simp [Timers.view, Pass.watch, htriggered]
    · have hsame : (Pass.scan { p with called := true }).watch i = w.pass.watch i := by
        rw [hpass]
        simp [Pass.watch, Ne.symm hi]
      left
      simp only [view, starting, handlerCode, hset, hsame]
      simp [hne hi]
  · by_cases hi : i.val = p.i
    · obtain rfl : (⟨p.i, hlt⟩ : Fin l.nr) = i := Fin.ext hi.symm
      rw [watch_self hstop rfl htriggered, if_neg hcall] at hwatch
      right
      convert OneTimer.Step.clearTick hwatch using 1
      simp only [view, Timers.view_clearTimerTick, if_true]
      rw [watch_of_lt (lt_succ_self _)]
      rfl
    · left
      simp only [view, Timers.view_clearTimerTick, hne hi, if_false]
      rw [watch_next (fun heq => absurd heq hi), hpass]
      rfl
  · exact .inl (view_pass_of_eq (by
      rw [hpass, watch_next (fun hi => by simpa [hi] using htriggered)]))

/-- So does every other step of the pass. -/
theorem view_handleTimerTriggered (hp : w.sys.procs[0]? = some []) (calls : List TimerCall)
    (i : Fin l.nr) :
    (w.view i).Moves ((w.handleTimerTriggered calls).view i) := by
  have hwatch : (w.view i).watch = w.pass.watch i := rfl
  rw [handleTimerTriggered]
  cases hpass : w.pass with
  | wait =>
    left
    simp only
    split_ifs
    · rfl
    · exact view_pass_of_eq (by rw [hpass]; rfl)
  | enter =>
    rw [hpass] at hwatch
    by_cases htick : w.sys.shared.dev.timerTick.getLsbD i = true
    · right
      convert OneTimer.Step.seeTick hwatch htick using 1
      simp only [view_pass, Pass.watch, if_pos htick]
      rfl
    · left
      apply view_pass_of_eq
      simp only [hpass, Pass.watch, if_neg htick]
  | ticked triggered armings =>
    rw [hpass, Pass.watch] at hwatch
    by_cases hseen : triggered.getLsbD i = true ∧ i.val < l.peEnd
    · right
      rw [if_pos hseen.1] at hwatch
      convert OneTimer.Step.seeMask hwatch using 1
      have hnext : (Pass.scan ⟨triggered, armings, w.sys.shared.dev.timerEnableMask, 0, false,
          false⟩).watch i = if (w.view i).armed then .due (armings i) true else .closing := by
        simp [Pass.watch, hseen.1, hseen.2, view, Timers.view]
      rw [← hnext]
      rfl
    · left
      have hnext : (Pass.scan ⟨triggered, armings, w.sys.shared.dev.timerEnableMask, 0, false,
          false⟩).watch i = w.pass.watch i := by
        simp only [hpass, Pass.watch]
        grind
      exact congrArg (fun x => w.sys.shared.view i (w.starting i) x _) hnext
  | scan p =>
    rw [hpass] at hwatch
    simp only
    split_ifs with hstop hsecond
    · exact view_examine p hpass hstop hp calls i
    · left
      have hnext : Pass.wait.watch i = w.pass.watch i := by
        rw [hpass, watch_of_lt]
        · rfl
        · have := i.isLt
          rw [Scan.stop, if_pos hsecond] at hstop
          omega
      exact congrArg (fun x => w.sys.shared.view i (w.starting i) x _) hnext
    · by_cases hdue : p.triggered.getLsbD i = true ∧ p.i ≤ i ∧ ¬ (p.i = i ∧ p.called)
      · right
        have hpe : l.peEnd ≤ i := by
          rw [Scan.stop, if_neg hsecond] at hstop
          omega
        have hold : (w.view i).watch = .due (p.armings i) false := by
          rw [hwatch, Pass.watch]
          grind
        convert OneTimer.Step.seeMask hold using 1
        have hnext : (Pass.scan { p with
              enableMask := w.sys.shared.dev.timerEnableMask
              second := true }).watch i =
            if (w.view i).armed then .due (p.armings i) true else .closing := by
          simp only [Pass.watch, view, Timers.view]
          grind
        rw [← hnext]
        rfl
      · left
        apply view_pass_of_eq
        simp only [hpass, Pass.watch]
        grind


theorem StartsCurrent.run (h : w.StartsCurrent) (hapart : w.Apart (.run t)) :
    (w.step (.run t)).StartsCurrent := by
  rcases move_cases w.sys t with hsame | ⟨instr, rest, pushed, s', hp, hexec, hmove⟩
  · simpa only [StartsCurrent, step, hsame] using h
  · have happ : instr.Apart w := hapart instr (by simp [hp])
    -- an old start is of a timer that is not armed now
    have hold {t' : ℕ} {code : List (Instr l)} (hp' : w.sys.procs[t']? = some code)
        (i : Fin l.nr) (g : ℕ) (hin : .start i g ∈ code) : g = s'.latest i := by
      rcases Timers.exec_pushed hexec i with ⟨hlatest, -⟩ | ⟨mask, hset, -⟩
      · rw [hlatest]
        exact h t' code hp' i g hin
      · rw [hset] at happ
        have hle := System.weight_le_total (countP (Instr.isStart i)) (mem_of_getElem? hp')
        exact absurd hin (Instr.start_not_mem (le_zero.mp (happ.2.2.1 ▸ hle)) g)
    intro t' code hp' i g hin
    simp only [step, hmove] at hp' ⊢
    by_cases ht : t = t'
    · subst ht
      rw [List.getElem?_set_self (List.getElem?_eq_some_iff.mp hp).1] at hp'
      obtain rfl := some.inj hp'
      rcases mem_append.mp hin with hpushed | hrest
      · rcases Timers.exec_pushed hexec i with ⟨-, hzero⟩ | ⟨mask, -, rfl⟩
        · exact absurd hpushed (Instr.start_not_mem hzero g)
        · simpa using hpushed
      · exact hold hp i g (mem_cons_of_mem _ hrest)
    · rw [getElem?_set_ne ht] at hp'
      exact hold hp' i g hin

theorem StartsCurrent.set_enter (h : w.StartsCurrent) (t : ℕ) (calls : List TimerCall) {t' : ℕ}
    (hp : (w.sys.procs.set t (calls.map .enter))[t']? = some code) (i : Fin l.nr) (g : ℕ)
    (hin : .start i g ∈ code) : g = w.sys.shared.latest i := by
  rw [getElem?_set] at hp
  split_ifs at hp
  · obtain rfl := some.inj hp
    simp at hin
  · exact h t' code hp i g hin

theorem handleTimerTriggered_threads (calls : List TimerCall) :
    (w.handleTimerTriggered calls).sys.shared.latest = w.sys.shared.latest ∧
      ((w.handleTimerTriggered calls).sys.procs = w.sys.procs ∨
        ∃ calls' : List TimerCall,
          (w.handleTimerTriggered calls).sys.procs = w.sys.procs.set 0 (calls'.map .enter)) := by
  rw [handleTimerTriggered]
  cases w.pass with
  | wait =>
    simp only
    split_ifs <;> exact ⟨rfl, .inl rfl⟩
  | enter | ticked => exact ⟨rfl, .inl rfl⟩
  | scan p =>
    simp only [examine]
    split_ifs
    all_goals first | exact ⟨rfl, .inl rfl⟩ | exact ⟨rfl, .inr ⟨_, rfl⟩⟩

/-- Every step starts timers for their latest arming only. -/
theorem StartsCurrent.step (h : w.StartsCurrent) (hapart : w.Apart e) :
    (w.step e).StartsCurrent := by
  cases e with
  | run t => exact h.run hapart
  | call t c =>
    rw [TimerSystem.step]
    split_ifs
    · exact fun _ _ hp i g hin => h.set_enter t [c] hp i g hin
    · exact h
  | timer calls =>
    rw [TimerSystem.step]
    split_ifs
    · obtain ⟨hlatest, hsame | ⟨calls', hset⟩⟩ := handleTimerTriggered_threads (w := w) calls
      · simpa only [StartsCurrent, hlatest, hsame] using h
      · intro t code hp i g hin
        rw [hset] at hp
        rw [hlatest]
        exact h.set_enter 0 calls' hp i g hin
    · exact h
  | expire j =>
    have hlatest : (w.sys.shared.expire j).latest = w.sys.shared.latest := by
      rw [Timers.expire]
      split <;> rfl
    simpa only [StartsCurrent, TimerSystem.step, hlatest] using h
  | callback j =>
    have hlatest : (w.sys.shared.callback j).latest = w.sys.shared.latest := by
      rw [Timers.callback]
      split <;> rfl
    simpa only [StartsCurrent, TimerSystem.step, hlatest] using h

/-- Every step of the system moves each timer by its steps. -/
theorem view_step (hcurrent : w.StartsCurrent) (hapart : w.Apart e) (i : Fin l.nr) :
    (w.view i).Moves ((w.step e).view i) := by
  cases e with
  | call t c => exact .inl (view_call t c i)
  | run t => exact view_run hcurrent hapart i
  | timer calls =>
    rw [step]
    split_ifs with hp
    · exact view_handleTimerTriggered hp calls i
    · exact .inl rfl
  | expire j => exact Timers.expire_view j hapart
  | callback j =>
    apply Timers.callback_view j
    rintro rfl
    exact hapart

/-- What all runs keep whose parties keep apart. -/
structure Kept (w : TimerSystem l) : Prop where
  current : w.StartsCurrent
  sound : ∀ i, (w.view i).Sound

/-- Every step keeps the system sound. -/
theorem Kept.step (h : w.Kept) (hapart : w.Apart e) : (w.step e).Kept where
  current := h.current.step hapart
  sound i := by
    rcases view_step h.current hapart i with hsame | hstep
    · rw [hsame]
      exact h.sound i
    · exact (h.sound i).step hstep

theorem start_startsCurrent (l : TimerLayout) (threads : ℕ) : (start l threads).StartsCurrent := by
  intro t code hp i g hin
  simp only [start, getElem?_replicate] at hp
  split_ifs at hp
  simp_all

theorem start_sound (l : TimerLayout) (threads : ℕ) (i : Fin l.nr) :
    ((start l threads).view i).Sound := by
  have hview : (start l threads).view i = OneTimer.idle := by
    simp [view, Timers.view, starting, start, Timers.start, TimerState.start, System.total,
      Pass.watch, OneTimer.idle]
  rw [hview]
  exact OneTimer.idle_sound

theorem timesHandled_eq (w : TimerSystem l) (i : Fin l.nr) (g : ℕ) :
    w.timesHandled i g = ((w.view i).handled.map Handling.arming).count g := by
  simp only [timesHandled, view, Timers.view, List.count, countP_map, countP_filter]
  congr 1
  grind

theorem timesExpired_eq (w : TimerSystem l) (i : Fin l.nr) (g : ℕ) :
    w.timesExpired i g = (w.view i).expired.count g := by
  simp only [timesExpired, view, Timers.view, List.count, countP_map, countP_filter]
  congr 1
  grind

/-- A sound system has handled its expiries right. -/
theorem Kept.handledRight (h : w.Kept) : w.HandledRight where
  current x hx := (h.sound x.1).current x.2 (by simp [view, Timers.view]; exact hx)
  once i g := by
    rw [timesHandled_eq, timesExpired_eq]
    exact ⟨(h.sound i).count_handled_le g,
      nodup_iff_count_le_one.mp (h.sound i).expired_once g⟩
  complete := by
    rintro ⟨hpass, htick, hflight⟩ i harmed hexpired
    rw [timesExpired_eq] at hexpired
    rw [timesHandled_eq]
    have hin := (h.sound i).handled_of_quiet harmed (count_pos_iff.mp hexpired)
      (Pass.watch_of_isWait hpass i) (by simp [view, Timers.view, htick]) (hflight i)
    exact count_eq_one_of_mem (h.sound i).handled_once hin

/-- In every interleaving in which the parties keep apart, the timeout handlers run for the latest
armings of armed timers only, and handle every expiry of an arming that stays in force once. -/
theorem timeouts_handledRight (l : TimerLayout) (threads : ℕ) (events : List (TimerEvent l))
    (h : Runs.RunOk step Apart (start l threads) events) :
    (events.foldl step (start l threads)).HandledRight := by
  have hkept : (events.foldl step (start l threads)).Kept :=
    (Runs.Reaches.start.foldl h).invariant ⟨start_startsCurrent l threads, start_sound l threads⟩
      fun _ _ hkept hapart => hkept.step hapart
  exact hkept.handledRight

instance : NeZero defaultLayout.nr := ⟨by decide⟩

/-- A thread enables a timer of the policy engine. -/
def armRun (i : Fin defaultLayout.nr) : List (TimerEvent defaultLayout) :=
  .call 1 (.enable i) :: replicate 6 (.run 1)

/-- Timers 0 and 1 are enabled and expire, and the timer thread runs both handlers in one pass. Then
timer 0 is enabled again, and the next pass handles its second expiry. -/
def handledRun : List (TimerEvent defaultLayout) :=
  armRun 0 ++ armRun 1 ++ [.expire 0, .callback 0, .expire 1, .callback 1] ++
    replicate 4 (.timer []) ++ replicate 4 (.run 0) ++ replicate 2 (.timer []) ++
    replicate 4 (.run 0) ++ replicate 60 (.timer []) ++
    armRun 0 ++ [.expire 0, .callback 0] ++ replicate 4 (.timer []) ++ replicate 4 (.run 0) ++
    replicate 61 (.timer [])

/-- Two timers expire, and the first is armed again and expires once more. -/
theorem timeouts_handledRight_handledRun :
    Runs.RunOk step Apart (start defaultLayout 1) handledRun ∧
      (handledRun.foldl step (start defaultLayout 1)).timesHandled 0 1 = 1 ∧
      (handledRun.foldl step (start defaultLayout 1)).timesHandled 1 1 = 1 ∧
      (handledRun.foldl step (start defaultLayout 1)).timesHandled 0 2 = 1 ∧
      (handledRun.foldl step (start defaultLayout 1)).HandledRight := by
  refine ⟨?_, ?_, ?_, ?_, timeouts_handledRight _ _ _ ?_⟩ <;> decide +kernel

/-- Timers 0 and 1 have expired. While the handler of timer 0 runs, another thread disables
timer 1, and then the handler of timer 1 runs. -/
def staleRun : List (TimerEvent defaultLayout) :=
  armRun 0 ++ armRun 1 ++ [.expire 0, .callback 0, .expire 1, .callback 1] ++
    replicate 4 (.timer []) ++ .call 1 (.disable 1) :: replicate 4 (.run 1) ++
    replicate 4 (.run 0) ++ replicate 2 (.timer [])

/-- The handler of timer 37 restarts the timer, which expires before the pass clears its tick. -/
def lostRun : List (TimerEvent defaultLayout) :=
  armRun 37 ++ [.expire 37, .callback 37] ++ replicate 42 (.timer [.restart 37]) ++
    replicate 11 (.run 0) ++ [.expire 37, .callback 37] ++ replicate 23 (.timer [])

/-- The handler of a disabled timer runs, and an expiry of an armed timer is never handled. -/
theorem not_timeouts_handledRight :
    ¬ (staleRun.foldl step (start defaultLayout 1)).HandledRight ∧
      ¬ (lostRun.foldl step (start defaultLayout 1)).HandledRight := by
  constructor
  · intro h
    have hcurrent : ∀ x ∈ (staleRun.foldl step (start defaultLayout 1)).handled, x.2.Current :=
      h.current
    revert hcurrent
    decide +kernel
  · intro h
    have hquiet : (lostRun.foldl step (start defaultLayout 1)).Quiet :=
      ⟨by decide +kernel, by decide +kernel, by decide +kernel⟩
    have hone := h.complete hquiet 37 (by decide +kernel) (by decide +kernel)
    revert hone
    decide +kernel

end TimerSystem

end Mt8169.Typec
