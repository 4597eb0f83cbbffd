import Mt8169.Btif.Device
import Mt8169.Lib.Runs
import Mathlib.Logic.Basic
import Mathlib.Tactic.SplitIfs

/-!
# The balance of the mutex and of the clocks

A call is balanced if it unlocks `state_mtx` as often as it locks it and leaves every clock enabled
once in the state ON and not at all in the others. The clock of a channel counts in DMA mode only.
For every call from a balanced state, the failures it meets decide whether it is balanced.
-/

namespace Mt8169.Btif

open Runs

namespace Device

variable {d : Device} {a : Answers}

/-- The clocks of the block and of the channels in DMA mode are not enabled. -/
structure Idle (d : Device) : Prop where
  clk : d.clkRef = 0
  tx : d.txMode = .dma → d.txRef = 0
  rx : d.rxMode = .dma → d.rxRef = 0

/-- They are enabled once. -/
structure Running (d : Device) : Prop where
  clk : d.clkRef = 1
  tx : d.txMode = .dma → d.txRef = 1
  rx : d.rxMode = .dma → d.rxRef = 1

/-- The clocks are as the state asks for. -/
structure Clocked (d : Device) : Prop where
  on : d.state = .on → d.Running
  other : d.state ≠ .on → d.Idle

/-- From `d` to `d'` the mutex is unlocked as often as it is locked, and the clocks are right. -/
structure Keeps (d d' : Device) : Prop where
  held : d'.held = d.held
  clocked : d'.Clocked

/-- A call is balanced. -/
def Balanced (d : Device) (c : Call) : Prop := Keeps d (d.step c)

theorem Idle.not_running (h : d.Idle) : ¬ d.Running := by
  intro hr
  have h0 := h.clk
  have h1 := hr.clk
  omega

/-- The block comes up: neither its clock nor its interrupt fails. -/
def InitOk (a : Answers) : Prop := a.clk = 0 ∧ a.irq = 0

/-- The clocks come up again from deep idle. The clock of the DMA fails only for the first channel
that enables it. -/
def WakeOk (d : Device) (a : Answers) : Prop :=
  a.clk = 0 ∧ (d.txMode = .dma → d.txRef + d.rxRef = 0 → a.txClk = 0) ∧
    (d.txMode = .pio → d.rxMode = .dma → d.txRef + d.rxRef = 0 → a.rxClk = 0)

/-- The device comes to the state ON. -/
def ExitOk (d : Device) (a : Answers) : Prop :=
  match d.state with
  | .on => True
  | .dpidle => d.WakeOk a
  | .suspend => InitOk a
  | .off => InitOk a

/-- Both channels are in DMA mode once the device is ON: where they are set up again, neither falls
back to PIO. -/
def BothDma (d : Device) (a : Answers) : Prop :=
  d.txMode = .dma ∧ d.rxMode = .dma ∧
    (d.state = .dpidle ∨ (a.txClk = 0 ∧ a.txIrq = 0 ∧ a.rxIrq = 0))

/-- The condition on a call. -/
def Fine (d : Device) : Call → Prop
  | .open a => d.enable = false → a.hold = true → d.state ≠ .on ∧ InitOk a
  | .close a => d.enable = true → a.hold = true → d.state = .suspend ∨ d.state = .off → InitOk a
  | .enterDpidle a => a.hold = true → d.state = .suspend → InitOk a ∧ a.txDone = true
  | .exitDpidle a => a.hold = true → d.ExitOk a
  | .sendData a => d.txCtx = .user → a.hold = true → d.ExitOk a
  | .suspend a => a.hold = true → d.enable = true → d.state ≠ .on → d.ExitOk a ∧ d.BothDma a
  | .resume a =>
    a.hold = true → d.enable = true → d.state = .suspend → InitOk a ∧ a.txDone = true

/-- One enable more for every clock. -/
def woken (d : Device) : Device :=
  { d with
    clkRef := d.clkRef + 1
    txRef := if d.txMode = .dma then d.txRef + 1 else d.txRef
    rxRef := if d.rxMode = .dma then d.rxRef + 1 else d.rxRef }

/-- One enable less for every clock. -/
def slept (d : Device) : Device :=
  { d with
    clkRef := d.clkRef - 1
    txRef := if d.txMode = .dma then d.txRef - 1 else d.txRef
    rxRef := if d.rxMode = .dma then d.rxRef - 1 else d.rxRef }

theorem Idle.woken (h : d.Idle) : d.woken.Running := by
  refine ⟨?_, ?_, ?_⟩
  · simp [Device.woken, h.clk]
  · intro hm
    have hm' : d.txMode = .dma := hm
    simp [Device.woken, hm', h.tx hm']
  · intro hm
    have hm' : d.rxMode = .dma := hm
    simp [Device.woken, hm', h.rx hm']

theorem Running.slept (h : d.Running) : d.slept.Idle := by
  refine ⟨?_, ?_, ?_⟩
  · simp [Device.slept, h.clk]
  · intro hm
    have hm' : d.txMode = .dma := hm
    simp [Device.slept, hm', h.tx hm']
  · intro hm
    have hm' : d.rxMode = .dma := hm
    simp [Device.slept, hm', h.rx hm']

theorem enterDpidleFromOn_eq (d : Device) (a : Answers) :
    d.enterDpidleFromOn a = if a.txDone then (0, d.slept) else (-1, d) := by
  unfold enterDpidleFromOn slept
  split
  · cases htx : d.txMode <;> cases hrx : d.rxMode <;>
      simp [htx, hrx, txClkDisable, rxClkDisable, clkDisable]
  · rfl

theorem suspendFree_eq (d : Device) :
    d.suspendFree.2 = d.slept ∧ (d.suspendFree.1 = 0 ↔ d.txMode = .dma ∧ d.rxMode = .dma) := by
  cases htx : d.txMode <;> cases hrx : d.rxMode <;>
    simp [suspendFree, controllerFree, clkDisable, controllerTxFree, controllerRxFree,
      txClkDisable, rxClkDisable, slept, htx, hrx]

/-- Deep idle is always left, with an error unless the controller wakes up. -/
theorem exitDpidleFromDpidle_eq (h : d.Idle) (a : Answers) :
    (d.exitDpidleFromDpidle a).2 = d.woken ∧
      ((d.exitDpidleFromDpidle a).1 = 0 ↔ d.WakeOk a) := by
  cases d with
  | mk state enable txMode rxMode txCtx held clkRef txRef rxRef =>
    obtain ⟨hclk, htx, hrx⟩ := h
    simp only at hclk htx hrx
    subst hclk
    refine ⟨?_, ?_⟩
    · cases txMode <;> cases rxMode <;>
        simp [exitDpidleFromDpidle, txClkEnable, rxClkEnable, clkEnable, woken]
    · -- The errors are not positive, so that they add up to zero only if there are none.
      cases txMode <;> cases rxMode <;>
        grind [exitDpidleFromDpidle, txClkEnable, rxClkEnable, clkEnable, WakeOk]

/-- The Tx channel stays in DMA mode through its set-up. -/
def TxStays (d : Device) (a : Answers) : Prop :=
  d.txMode = .dma ∧ (d.txRef + d.rxRef = 0 → a.txClk = 0) ∧ a.txIrq = 0

/-- The Rx channel stays in DMA mode through its set-up. -/
def RxStays (d : Device) (a : Answers) : Prop :=
  d.rxMode = .dma ∧ (d.txRef + d.rxRef = 0 → a.rxClk = 0) ∧ a.rxIrq = 0

/-- The set-up of a channel enables its clock once more if the channel was in DMA mode, and the mode
is DMA if it stays. -/
theorem channelSetup_eq (d : Device) (a : Answers) :
    (∃ mode ref, d.controllerTxSetup a = (0, { d with txMode := mode, txRef := ref }) ∧
      (mode = .dma ↔ d.TxStays a) ∧ (d.txMode = .dma → ref = d.txRef + 1)) ∧
    ∃ mode ref, d.controllerRxSetup a = (0, { d with rxMode := mode, rxRef := ref }) ∧
      (mode = .dma ↔ d.RxStays a) ∧ (d.rxMode = .dma → ref = d.rxRef + 1) := by
  refine ⟨⟨(d.controllerTxSetup a).2.txMode, (d.controllerTxSetup a).2.txRef, ?_⟩,
    (d.controllerRxSetup a).2.rxMode, (d.controllerRxSetup a).2.rxRef, ?_⟩
  all_goals
    cases d with
    | mk state enable txMode rxMode txCtx held clkRef txRef rxRef =>
      cases txMode <;> cases rxMode <;> refine ⟨?_, ?_, ?_⟩ <;>
        grind [controllerTxSetup, txDmaSetup, txClkEnable, txPioSetup, TxStays, dmaCtrlEnable,
          controllerRxSetup, rxDmaSetup, rxClkEnable, rxPioSetup, RxStays]

/-- The channels once they are set up. -/
def channelsSetup (d : Device) (a : Answers) : Device :=
  ((d.controllerTxSetup a).2.controllerRxSetup a).2

theorem init_eq (d : Device) (a : Answers) :
    d.init a =
      if (d.controllerSetup a).1 ≠ 0 then
        ((d.controllerSetup a).1, (d.controllerSetup a).2.release)
      else (0, (d.controllerSetup a).2.channelsSetup a) := by
  obtain ⟨_, _, htx, -⟩ := (channelSetup_eq (d.controllerSetup a).2 a).1
  obtain ⟨_, _, hrx, -⟩ := (channelSetup_eq ((d.controllerSetup a).2.controllerTxSetup a).2 a).2
  rw [htx] at hrx
  simp only [init, htx, hrx, ne_eq, not_true, if_false, channelsSetup]

/-- What `_btif_init` leaves of an idle device when it succeeds. -/
structure Ready (d : Device) (a : Answers) (d' : Device) : Prop where
  state : d'.state = d.state
  enable : d'.enable = d.enable
  held : d'.held = d.held
  running : d'.Running
  bothDma : d'.txMode = .dma ∧ d'.rxMode = .dma ↔
    d.txMode = .dma ∧ d.rxMode = .dma ∧ a.txClk = 0 ∧ a.txIrq = 0 ∧ a.rxIrq = 0

theorem channelsSetup_eq (d : Device) (a : Answers) :
    ∃ tm tr rm rr, d.channelsSetup a =
        { d with txMode := tm, txRef := tr, rxMode := rm, rxRef := rr } ∧
      (tm = .dma ↔ d.TxStays a) ∧ (d.txMode = .dma → tr = d.txRef + 1) ∧
      (rm = .dma ↔ { d with txMode := tm, txRef := tr }.RxStays a) ∧
      (d.rxMode = .dma → rr = d.rxRef + 1) := by
  obtain ⟨tm, tr, htx, htstays, htref⟩ := (channelSetup_eq d a).1
  obtain ⟨rm, rr, hrx, hrstays, hrref⟩ := (channelSetup_eq { d with txMode := tm, txRef := tr } a).2
  rw [channelsSetup, htx, hrx]
  exact ⟨tm, tr, rm, rr, rfl, htstays, htref, hrstays, hrref⟩

theorem channelsSetup_ready (hidle : d.Idle) (a : Answers) :
    Ready d a ({ d with clkRef := 1 }.channelsSetup a) := by
  obtain ⟨tm, tr, rm, rr, heq, htstays, htref, hrstays, hrref⟩ :=
    channelsSetup_eq { d with clkRef := 1 } a
  rw [heq]
  unfold TxStays at htstays
  unfold RxStays at hrstays
  refine ⟨rfl, rfl, rfl, ⟨rfl, fun hm => ?_, fun hm => ?_⟩, ?_⟩
  · have hd := (htstays.mp hm).1
    exact (htref hd).trans (congrArg (· + 1) (hidle.tx hd))
  · have hd := (hrstays.mp hm).1
    exact (hrref hd).trans (congrArg (· + 1) (hidle.rx hd))
  · simp only [htstays, hrstays]
    constructor
    · rintro ⟨⟨htd, htclk, htirq⟩, hrd, -, hrirq⟩
      have h0 : d.txRef + d.rxRef = 0 := by simp [hidle.tx htd, hidle.rx hrd]
      exact ⟨htd, hrd, htclk h0, htirq, hrirq⟩
    · rintro ⟨htd, hrd, htclk, htirq, hrirq⟩
      refine ⟨⟨htd, fun _ => htclk, htirq⟩, hrd, fun hzero => ?_, hrirq⟩
      -- The Tx channel has enabled the clock of the DMA already.
      simp [htref htd, hidle.tx htd, hidle.rx hrd] at hzero

theorem init_of_setup_failed (hfail : (d.controllerSetup a).1 ≠ 0) :
    (d.init a).1 ≠ 0 ∧ (d.init a).2.held = d.held - 1 := by
  have hheld : (d.controllerSetup a).2.held = d.held := by
    simp only [controllerSetup, clkEnable, clkDisable]
    split_ifs <;> rfl
  rw [init_eq, if_pos hfail]
  exact ⟨hfail, congrArg (· - 1) hheld⟩

/-- An initialisation succeeds exactly under its condition, or gives the lock back once more. -/
theorem init_cases (h : d.Idle) (a : Answers) :
    InitOk a ∧ (d.init a).1 = 0 ∧ Ready d a (d.init a).2 ∨
      ¬ InitOk a ∧ (d.init a).1 ≠ 0 ∧ (d.init a).2.held = d.held - 1 := by
  by_cases hok : InitOk a
  · have hsetup : d.controllerSetup a = (0, { d with clkRef := 1 }) := by
      simp [controllerSetup, clkEnable, h.clk, hok.1, hok.2, hwInit]
    rw [init_eq, hsetup]
    exact .inl ⟨hok, rfl, channelsSetup_ready h a⟩
  · refine .inr ⟨hok, init_of_setup_failed ?_⟩
    by_cases hclk : a.clk = 0
    · have hirq : a.irq ≠ 0 := fun hirq => hok ⟨hclk, hirq⟩
      simp [controllerSetup, clkEnable, h.clk, hclk, hwInit, hirq]
    · simp [controllerSetup, clkEnable, h.clk, hclk]

/-- An initialisation of a running device fails or takes a second clock. -/
theorem init_of_running (h : d.Running) (a : Answers) :
    ((d.init a).1 ≠ 0 ∧ (d.init a).2.held = d.held - 1) ∨
      ((d.init a).1 = 0 ∧ (d.init a).2.state = d.state ∧ (d.init a).2.clkRef = 2) := by
  by_cases hirq : a.irq = 0
  · right
    have hsetup : d.controllerSetup a = (0, { d with clkRef := 2 }) := by
      simp [controllerSetup, clkEnable, h.clk, hirq, hwInit]
    obtain ⟨_, _, _, _, heq, -⟩ := channelsSetup_eq { d with clkRef := 2 } a
    simp [init_eq, hsetup, heq]
  · left
    apply init_of_setup_failed
    simp [controllerSetup, clkEnable, h.clk, hirq, hwInit]

theorem stateSet_on (d : Device) : d.stateSet .on = (0, { d with state := .on }) := by
  cases d with
  | mk state => cases state <;> rfl

theorem Clocked.of_on (hstate : d.state = .on) (h : d.Running) : d.Clocked :=
  ⟨fun _ => h, fun hne => absurd hstate hne⟩

theorem Clocked.of_ne (hstate : d.state ≠ .on) (h : d.Idle) : d.Clocked :=
  ⟨fun hon => absurd hon hstate, fun _ => h⟩

/-- A device that came to the state ON from another one. -/
structure Exited (d : Device) (a : Answers) (d' : Device) : Prop where
  state : d'.state = .on
  enable : d'.enable = d.enable
  held : d'.held = d.held
  running : d'.Running
  bothDma : d'.txMode = .dma ∧ d'.rxMode = .dma ↔ d.BothDma a

theorem Exited.keeps {d' : Device} (h : Exited d a d') : Keeps d d' :=
  ⟨h.held, .of_on h.state h.running⟩

theorem exitDpidle_of_on (hstate : d.state = .on) : d.exitDpidle a = (0, d) := by
  simp [exitDpidle, stateSet, hstate]

/-- A device that is not ON comes to the state ON, or the clocks of a device in deep idle are
enabled, or the mutex is released. -/
theorem exitDpidle_cases (h : d.Idle) (hne : d.state ≠ .on) (a : Answers) :
    d.ExitOk a ∧ (d.exitDpidle a).1 = 0 ∧ Exited d a (d.exitDpidle a).2 ∨
      ¬ d.ExitOk a ∧ (d.exitDpidle a).1 ≠ 0 ∧
        (d.state = .dpidle ∧ (d.exitDpidle a).2 = d.woken ∨
          (d.state = .suspend ∨ d.state = .off) ∧ (d.exitDpidle a).2.held = d.held - 1) := by
  unfold exitDpidle ExitOk
  cases hstate : d.state with
  | on => exact absurd hstate hne
  | dpidle =>
    obtain ⟨hwoken, hiff⟩ := exitDpidleFromDpidle_eq h a
    by_cases hok : d.WakeOk a
    · refine .inl ⟨hok, ?_⟩
      simp only [hiff.mpr hok, hwoken, if_true, stateSet_on]
      refine ⟨trivial, rfl, rfl, rfl, { h.woken with }, ?_⟩
      simp [BothDma, hstate, woken]
    · have hfail := mt hiff.mp hok
      simp [hok, hfail, hwoken]
  | suspend | off =>
    rcases init_cases h a with ⟨hok, hzero, hready⟩ | ⟨hbad, hfail, hheld⟩
    · refine .inl ⟨hok, ?_⟩
      simp only [hzero, if_true, stateSet_on]
      refine ⟨trivial, rfl, hready.enable, hready.held, { hready.running with }, ?_⟩
      simpa [BothDma, hstate] using hready.bothDma
    · simp [hbad, hfail, hheld]

theorem not_keeps_of_held {d' : Device} (h : d'.held = d.held - 1) : ¬ Keeps d d' := by
  intro hkeeps
  have := hkeeps.held
  omega

theorem not_keeps_woken (h : d.Idle) (hstate : d.state = .dpidle) : ¬ Keeps d d.woken := by
  intro hkeeps
  have hidle := hkeeps.clocked.other (by simp [woken, hstate])
  exact hidle.not_running h.woken

/-- Leaving deep idle keeps lock and clock exactly under its condition. -/
theorem keeps_exitDpidle_iff (h : d.Clocked) (a : Answers) :
    Keeps d (d.exitDpidle a).2 ↔ d.ExitOk a := by
  by_cases hon : d.state = .on
  · rw [exitDpidle_of_on hon]
    exact ⟨fun _ => by simp [ExitOk, hon], fun _ => ⟨rfl, h⟩⟩
  · have hidle := h.other hon
    rcases exitDpidle_cases hidle hon a with ⟨hok, -, hexit⟩ | ⟨hok, -, hfailed⟩
    · exact iff_of_true hexit.keeps hok
    · refine iff_of_false (fun hkeeps => ?_) hok
      rcases hfailed with ⟨hstate, hwoken⟩ | ⟨-, hheld⟩
      · rw [hwoken] at hkeeps
        exact not_keeps_woken hidle hstate hkeeps
      · exact not_keeps_of_held hheld hkeeps

theorem Idle.toDpidle (h : d.Idle) (hstate : d.state = .on ∨ d.state = .suspend) :
    (d.stateSet .dpidle).2.held = d.held ∧ (d.stateSet .dpidle).2.Clocked := by
  have hset : d.stateSet .dpidle = (0, { d with state := .dpidle }) := by
    rcases hstate with hs | hs <;> simp [stateSet, hs]
  rw [hset]
  exact ⟨rfl, .of_ne (fun hon => by cases hon) { h with }⟩

/-- `_btif_enter_dpidle` is balanced except where a suspended device is not set up, or is set up
and then not idle in time. -/
theorem keeps_enterDpidle_iff (h : d.Clocked) (a : Answers) :
    Keeps d (d.enterDpidle a).2 ↔ (d.state = .suspend → InitOk a ∧ a.txDone = true) := by
  have hsame : Keeps d d := ⟨rfl, h⟩
  cases hstate : d.state with
  | off => simp [enterDpidle, hstate, eInvalState, hsame]
  | dpidle => simp [enterDpidle, hstate, stateSet, hsame]
  | on =>
    have hslept := (h.on hstate).slept.toDpidle (.inl hstate)
    cases hdone : a.txDone with
    | false => simp [enterDpidle, hstate, enterDpidleFromOn_eq, hdone, hsame]
    | true =>
      have hkeeps : Keeps d (d.slept.stateSet .dpidle).2 := ⟨hslept.1, hslept.2⟩
      simp [enterDpidle, hstate, enterDpidleFromOn_eq, hdone, hkeeps]
  | suspend =>
    have hidle : d.Idle := h.other (by simp [hstate])
    rcases init_cases hidle a with ⟨hok, hzero, hready⟩ | ⟨hok, hfail, hheld⟩
    · cases hdone : a.txDone with
      | false =>
        -- The clocks are on, and the state is still that of a suspended device.
        have hnot : ¬ Keeps d (d.init a).2 := by
          intro hkeeps
          have hne : (d.init a).2.state ≠ .on := by simp [hready.state, hstate]
          exact (hkeeps.clocked.other hne).not_running hready.running
        simp [enterDpidle, hstate, enterDpidleFromSus, enterDpidleFromOn_eq, hzero, hdone, hnot]
      | true =>
        have hslept := hready.running.slept.toDpidle (.inr (hready.state.trans hstate))
        have hkeeps : Keeps d ((d.init a).2.slept.stateSet .dpidle).2 :=
          ⟨hslept.1.trans hready.held, hslept.2⟩
        simp [enterDpidle, hstate, enterDpidleFromSus, enterDpidleFromOn_eq, hzero, hdone, hkeeps,
          hok]
    · have hnot := not_keeps_of_held hheld
      simp [enterDpidle, hstate, enterDpidleFromSus, hfail, hok, hnot]

theorem keeps_sendBody_iff (h : d.Clocked) (a : Answers) :
    Keeps d (d.sendBody a).2 ↔ d.ExitOk a := by
  have hsend : (d.sendBody a).2 = (d.exitDpidle a).2 := by
    unfold sendBody
    by_cases hon : d.state = .on
    · simp [hon, exitDpidle_of_on hon]
    · simp only [ne_eq, hon, not_false_eq_true, if_true]
      split <;> rfl
  rw [hsend]
  exact keeps_exitDpidle_iff h a

/-- An open keeps them if the device is off and is initialised. -/
theorem keeps_openBody_iff (h : d.Clocked) (a : Answers) :
    Keeps d (d.openBody a).2 ↔ d.state ≠ .on ∧ InitOk a := by
  simp only [openBody]
  by_cases hon : d.state = .on
  · -- The driver is ON without having been opened, and would be set up twice.
    refine ⟨fun hkeeps => ?_, fun hfine => absurd hon hfine.1⟩
    rcases init_of_running (h.on hon) a with ⟨hfail, hheld⟩ | ⟨hzero, -, hclk⟩
    · rw [if_neg hfail] at hkeeps
      exact absurd hkeeps (not_keeps_of_held hheld)
    · rw [if_pos hzero, stateSet_on] at hkeeps
      have hrun := (hkeeps.clocked.on rfl).clk
      simp only [hclk] at hrun
      omega
  · have hidle := h.other hon
    rcases init_cases hidle a with ⟨hok, hzero, hready⟩ | ⟨hok, hfail, hheld⟩
    · rw [if_pos hzero, stateSet_on]
      have hrun := hready.running
      exact iff_of_true ⟨hready.held, .of_on rfl { hrun with }⟩ ⟨hon, hok⟩
    · rw [if_neg hfail]
      exact iff_of_false (not_keeps_of_held hheld) fun hfine => hok hfine.2

theorem Idle.toOff (h : d.Idle) : (d.stateSet .off).2.Clocked := by
  cases hstate : d.state with
  | on =>
    have hset : d.stateSet .off = (0, { d with state := .off }) := by simp [stateSet, hstate]
    rw [hset]
    exact .of_ne (fun hon => by cases hon) { h with }
  | _ =>
    have hset : (d.stateSet .off).2 = d := by simp [stateSet, hstate]
    rw [hset]
    exact .of_ne (by simp [hstate]) h

theorem stateSet_held (d : Device) (state : PmState) : (d.stateSet state).2.held = d.held := by
  unfold stateSet
  split
  · rfl
  · split <;> rfl

theorem closeBody_eq (d : Device) (a : Answers) :
    (d.closeBody a).2 = ({ (d.exitDpidle a).2 with enable := false }.slept.stateSet .off).2 := by
  rw [← (suspendFree_eq { (d.exitDpidle a).2 with enable := false }).1]
  rfl

theorem closeBody_held (d : Device) (a : Answers) :
    (d.closeBody a).2.held = (d.exitDpidle a).2.held := by
  rw [closeBody_eq, stateSet_held]
  rfl

/-- A close leaves the clock in line with the state. -/
theorem closeBody_clocked (h : (d.exitDpidle a).2.Running) : (d.closeBody a).2.Clocked := by
  have hrun : { (d.exitDpidle a).2 with enable := false }.Running := { h with }
  rw [closeBody_eq]
  exact hrun.slept.toOff

/-- `btif_close` makes good a failure of the clocks in deep idle, but not one of the set-up. -/
theorem keeps_closeBody_iff (h : d.Clocked) (a : Answers) :
    Keeps d (d.closeBody a).2 ↔ (d.state = .suspend ∨ d.state = .off → InitOk a) := by
  have hkeeps : (d.exitDpidle a).2.Running → (d.exitDpidle a).2.held = d.held →
      Keeps d (d.closeBody a).2 := fun hrun hheld =>
    ⟨(closeBody_held d a).trans hheld, closeBody_clocked hrun⟩
  by_cases hon : d.state = .on
  · have hdone : Keeps d (d.closeBody a).2 := by
      rw [exitDpidle_of_on hon] at hkeeps
      exact hkeeps (h.on hon) rfl
    simp [hon, hdone]
  · have hidle := h.other hon
    rcases exitDpidle_cases hidle hon a with ⟨hok, -, hexit⟩ | ⟨hok, -, hfailed⟩
    · have hdone := hkeeps hexit.running hexit.held
      refine ⟨fun _ hstate => ?_, fun _ => hdone⟩
      rcases hstate with hs | hs <;> simpa [ExitOk, hs] using hok
    · rcases hfailed with ⟨hstate, hwoken⟩ | ⟨hstate, hheld⟩
      · rw [hwoken] at hkeeps
        have hdone := hkeeps hidle.woken rfl
        simp [hstate, hdone]
      · have hnot := not_keeps_of_held ((closeBody_held d a).trans hheld)
        refine ⟨fun hyes => absurd hyes hnot, fun hfine => absurd ?_ hok⟩
        rcases hstate with hs | hs <;> simpa [ExitOk, hs] using hfine

/-- `_btif_suspend` is balanced exactly when the device comes to the state ON with both channels in
DMA mode: freeing a channel in PIO mode counts as a failure and leaves it ON. -/
theorem keeps_suspendBody_iff (h : d.Clocked) (a : Answers) :
    Keeps d (d.suspendBody a).2 ↔
      (d.enable = true → d.state ≠ .on → d.ExitOk a ∧ d.BothDma a) := by
  have hsame : Keeps d d := ⟨rfl, h⟩
  cases henable : d.enable with
  | false => simp [suspendBody, henable, hsame]
  | true =>
    by_cases hon : d.state = .on
    · simp [suspendBody, henable, hon, hsame]
    have hidle := h.other hon
    rcases exitDpidle_cases hidle hon a with ⟨hok, hzero, hexit⟩ | ⟨hok, hfail, -⟩
    · obtain ⟨hslept, hboth⟩ := suspendFree_eq (d.exitDpidle a).2
      rw [hexit.bothDma] at hboth
      by_cases hdma : d.BothDma a
      · have hset : (d.exitDpidle a).2.slept.stateSet .suspend =
            (0, { (d.exitDpidle a).2.slept with state := .suspend }) := by
          have hs : (d.exitDpidle a).2.slept.state = .on := hexit.state
          simp [stateSet, hs]
        have hrest := hexit.running.slept
        have hkeeps : Keeps d { (d.exitDpidle a).2.slept with state := .suspend } :=
          ⟨hexit.held, .of_ne (fun hs => by cases hs) { hrest with }⟩
        simp [suspendBody, henable, hon, hzero, hboth.mpr hdma, hslept, suspendSet, hset, hok, hdma,
          hkeeps]
      · have hfail := mt hboth.mp hdma
        have hnot : ¬ Keeps d (d.exitDpidle a).2.slept := fun hkeeps =>
          hexit.running.slept.not_running (hkeeps.clocked.on hexit.state)
        simp [suspendBody, henable, hon, hzero, hfail, hslept, hdma, hnot]
    · have hnot : ¬ Keeps d (d.exitDpidle a).2 := mt (keeps_exitDpidle_iff h a).mp hok
      simp [suspendBody, henable, hon, hfail, hok, hnot]

/-- A resume keeps them if the initialisation and the way back to deep idle succeed. -/
theorem keeps_resumeBody_iff (h : d.Clocked) (a : Answers) :
    Keeps d (d.resumeBody a).2 ↔
      (d.enable = true → d.state = .suspend → InitOk a ∧ a.txDone = true) := by
  have hsame : Keeps d d := ⟨rfl, h⟩
  cases henable : d.enable with
  | false => simp [resumeBody, henable, hsame]
  | true =>
    by_cases hstate : d.state = .suspend
    · have hiff := keeps_enterDpidle_iff h a
      simpa [resumeBody, henable, hstate] using hiff
    · simp [resumeBody, henable, hstate, hsame]

theorem clocked_withHeld (d : Device) (n : ℤ) : { d with held := n }.Clocked ↔ d.Clocked := by
  constructor <;> intro h <;>
    exact ⟨fun hs => { h.on hs with }, fun hs => { h.other hs with }⟩

theorem Clocked.lock (h : d.Clocked) : d.lock.Clocked := (clocked_withHeld d _).mpr h

/-- A call under the lock is as balanced as its body. -/
theorem keeps_underLock_iff {body : Device → ℤ × Device} {P : Prop} (h : d.Clocked) (a : Answers)
    (hbody : Keeps d.lock (body d.lock).2 ↔ P) :
    Keeps d (d.underLock a body).2 ↔ (a.hold = true → P) := by
  rw [← hbody]
  unfold underLock
  cases a.hold with
  | false =>
    have hsame : Keeps d d := ⟨rfl, h⟩
    simp [hsame]
  | true =>
    generalize (body d.lock).2 = d'
    have hclocked : d'.release.Clocked ↔ d'.Clocked := clocked_withHeld d' _
    have hheld : d'.release.held = d.held ↔ d'.held = d.lock.held := by
      simp only [release, lock]
      omega
    refine ⟨fun hk _ => ⟨hheld.mp hk.held, hclocked.mp hk.clocked⟩, fun hk => ?_⟩
    exact ⟨hheld.mpr (hk rfl).held, hclocked.mpr (hk rfl).clocked⟩

/-- A call is balanced exactly under its condition. -/
theorem balanced_iff_fine (h : d.Clocked) (c : Call) : d.Balanced c ↔ d.Fine c := by
  have hsame : Keeps d d := ⟨rfl, h⟩
  unfold Balanced
  cases c with
  | «open» a =>
    cases henable : d.enable with
    | true => simp [step, btifOpen, Fine, henable, hsame]
    | false =>
      have hstep : d.step (.open a) = (d.underLock a (·.openBody a)).2 := by
        simp [step, btifOpen, henable]
      rw [hstep, keeps_underLock_iff h a (keeps_openBody_iff h.lock a)]
      simp [Fine, henable, lock]
  | close a =>
    cases henable : d.enable with
    | false => simp [step, btifClose, Fine, henable, hsame]
    | true =>
      have hstep : d.step (.close a) = (d.underLock a (·.closeBody a)).2 := by
        simp [step, btifClose, henable]
      rw [hstep, keeps_underLock_iff h a (keeps_closeBody_iff h.lock a)]
      simp [Fine, henable, lock]
  | enterDpidle a => exact keeps_underLock_iff h a (keeps_enterDpidle_iff h.lock a)
  | exitDpidle a => exact keeps_underLock_iff h a (keeps_exitDpidle_iff h.lock a)
  | sendData a =>
    cases hctx : d.txCtx with
    | user =>
      have hstep : d.step (.sendData a) = (d.underLock a (·.sendBody a)).2 := by
        simp [step, btifSendData, hctx]
      rw [hstep, keeps_underLock_iff h a (keeps_sendBody_iff h.lock a)]
      simp only [Fine, hctx, true_implies]
      rfl
    | _ => simp [step, btifSendData, Fine, hctx, hsame]
  | suspend a => exact keeps_underLock_iff h a (keeps_suspendBody_iff h.lock a)
  | resume a => exact keeps_underLock_iff h a (keeps_resumeBody_iff h.lock a)

/-- Over any sequence of calls from the probed driver, every call is balanced exactly when every
call is fine. -/
theorem run_balanced_iff (txMode rxMode : Mode) (txCtx : TxType) (cs : List Call) :
    RunOk step Balanced (probed txMode rxMode txCtx) cs ↔
      RunOk step Fine (probed txMode rxMode txCtx) cs := by
  apply runOk_congr Clocked
  · exact fun d c hd => balanced_iff_fine hd c
  · exact fun d c _ hbal => hbal.clocked
  · exact .of_ne (fun hon => by cases hon) ⟨rfl, fun _ => rfl, fun _ => rfl⟩

/-- The interrupt of the block is refused when the driver is opened. -/
def irqRefused : Call := .open ⟨true, 0, 0, 0, 16, 0, 0, true, 0⟩

/-- The mutex is unlocked twice. -/
theorem not_run_balanced_irqRefused :
    ¬ RunOk step Balanced (probed .dma .dma .user) [irqRefused] := by
  rintro ⟨hbal, -⟩
  have hheld := hbal.held
  revert hheld
  decide

end Device

end Mt8169.Btif
