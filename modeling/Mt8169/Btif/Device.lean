import Mathlib.Data.Int.Notation
import Mathlib.Data.Nat.Notation

/-!
# The BTIF driver

The calls that change the state of the driver: opening and closing, entering and leaving deep idle,
sending, suspend and resume. They run under `state_mtx` and switch the clocks of the block and of
its two DMA channels. The model counts the locks less the unlocks of the mutex, and the enables less
the disables of each clock.
-/

namespace Mt8169.Btif

/-- `enum _ENUM_BTIF_STATE_` -/
inductive PmState
  | off
  | suspend
  | dpidle
  | on
deriving DecidableEq

/-- `enum _ENUM_BTIF_MODE_` -/
inductive Mode
  | pio
  | dma
deriving DecidableEq

/-- `enum _ENUM_BTIF_TX_TYPE_`: who sends, the caller or a worker. -/
inductive TxType
  | user
  | single
  | invalid
deriving DecidableEq

/-- The error codes of the driver. -/
def eIntr : ℤ := -4
def eAlreadyOpen : ℤ := -6
def eNotOpen : ℤ := -7
def eInvalState : ℤ := -8

/-- What the kernel answers during a call: whether the mutex is locked or the caller is killed, the
error numbers of `clk_enable` for the block and, for each channel, of the DMA, those of
`request_irq`, with zero for success; whether a transmission ends before the last retry, and how
much of the data is written. -/
structure Answers where
  hold : Bool
  clk : ℕ
  txClk : ℕ
  rxClk : ℕ
  irq : ℕ
  txIrq : ℕ
  rxIrq : ℕ
  txDone : Bool
  written : ℤ

/-- `struct _mtk_btif_`, with the balance of `state_mtx` and the enables of each clock. The channels
share the clock of the DMA, whose counter is the sum of `txRef` and `rxRef`. -/
structure Device where
  state : PmState
  enable : Bool
  txMode : Mode
  rxMode : Mode
  txCtx : TxType
  held : ℤ
  clkRef : ℤ
  txRef : ℤ
  rxRef : ℤ

namespace Device

variable (d : Device) (a : Answers)

/-- `hal_btif_clk_ctrl` with `CLK_OUT_ENABLE`: the counter goes up even if the clock fails, and only
the first enables the clock. -/
def clkEnable : ℤ × Device :=
  (if d.clkRef + 1 = 1 then -(a.clk : ℤ) else 0, { d with clkRef := d.clkRef + 1 })

/-- `hal_btif_clk_ctrl` with `CLK_OUT_DISABLE` -/
def clkDisable : ℤ × Device := (0, { d with clkRef := d.clkRef - 1 })

/-- `hal_btif_dma_clk_ctrl` for the Tx channel. -/
def txClkEnable : ℤ × Device :=
  (if d.txRef + d.rxRef + 1 = 1 then -(a.txClk : ℤ) else 0, { d with txRef := d.txRef + 1 })

def txClkDisable : ℤ × Device := (0, { d with txRef := d.txRef - 1 })

/-- `hal_btif_dma_clk_ctrl` for the Rx channel. -/
def rxClkEnable : ℤ × Device :=
  (if d.txRef + d.rxRef + 1 = 1 then -(a.rxClk : ℤ) else 0, { d with rxRef := d.rxRef + 1 })

def rxClkDisable : ℤ × Device := (0, { d with rxRef := d.rxRef - 1 })

/-- `_btif_state_hold`, once it succeeds. -/
def lock : Device := { d with held := d.held + 1 }

/-- `_btif_state_release` -/
def release : Device := { d with held := d.held - 1 }

/-- `_btif_state_set` -/
def stateSet (state : PmState) : ℤ × Device :=
  if d.state = state then (0, d)
  else
    match d.state, state with
    | .on, .dpidle | .on, .off | .on, .suspend | .dpidle, .on | .dpidle, .suspend
    | .suspend, .dpidle | .suspend, .on | .off, .on => (0, { d with state := state })
    | _, _ => (eInvalState, d)

/-- `hal_btif_dma_ctrl` with `DMA_CTRL_ENABLE` only sets a bit. -/
def dmaCtrlEnable : ℤ := 0

/-- `hal_btif_hw_init` only writes registers. -/
def hwInit : ℤ := 0

/-- `_btif_tx_pio_setup` -/
def txPioSetup : ℤ × Device := (0, { d with txMode := .pio })

/-- `_btif_rx_pio_setup` -/
def rxPioSetup : ℤ × Device := (0, { d with rxMode := .pio })

/-- `_btif_tx_dma_setup`: the clock is left enabled when the channel or its interrupt fails. -/
def txDmaSetup : ℤ × Device :=
  let c := d.txClkEnable a
  if c.1 ≠ 0 then c
  else if dmaCtrlEnable ≠ 0 then (dmaCtrlEnable, c.2.txPioSetup.2)
  else (-(a.txIrq : ℤ), c.2)

/-- `_btif_rx_dma_setup` -/
def rxDmaSetup : ℤ × Device :=
  let c := d.rxClkEnable a
  if c.1 ≠ 0 then c.2.rxPioSetup
  else if dmaCtrlEnable ≠ 0 then c.2.rxClkDisable.2.rxPioSetup
  else (-(a.rxIrq : ℤ), c.2)

/-- `_btif_controller_tx_setup` -/
def controllerTxSetup : ℤ × Device :=
  match d.txMode with
  | .dma => if (d.txDmaSetup a).1 ≠ 0 then (d.txDmaSetup a).2.txPioSetup else d.txDmaSetup a
  | .pio => d.txPioSetup

/-- `_btif_controller_rx_setup` -/
def controllerRxSetup : ℤ × Device :=
  match d.rxMode with
  | .dma => if (d.rxDmaSetup a).1 ≠ 0 then (d.rxDmaSetup a).2.rxPioSetup else d.rxDmaSetup a
  | .pio => d.rxPioSetup

/-- `_btif_controller_tx_free`: nothing is done for PIO, and this is an error. -/
def controllerTxFree : ℤ × Device :=
  match d.txMode with
  | .dma => d.txClkDisable
  | .pio => (-1, d)

/-- `_btif_controller_rx_free` -/
def controllerRxFree : ℤ × Device :=
  match d.rxMode with
  | .dma => d.rxClkDisable
  | .pio => (-1, d)

/-- `_btif_controller_setup` -/
def controllerSetup : ℤ × Device :=
  let c := d.clkEnable a
  if c.1 ≠ 0 then c
  else if hwInit ≠ 0 then (hwInit, c.2.clkDisable.2)
  else if -(a.irq : ℤ) ≠ 0 then (-(a.irq : ℤ), c.2.clkDisable.2)
  else (0, c.2)

/-- `_btif_controller_free` -/
def controllerFree : ℤ × Device := d.clkDisable

/-- `_btif_init`: every failure releases the mutex. -/
def init : ℤ × Device :=
  let c := d.controllerSetup a
  if c.1 ≠ 0 then (c.1, c.2.release)
  else
    let t := c.2.controllerTxSetup a
    if t.1 ≠ 0 then (t.1, t.2.controllerFree.2.release)
    else
      let r := t.2.controllerRxSetup a
      if r.1 ≠ 0 then (r.1, r.2.controllerTxFree.2.controllerFree.2.release) else r

/-- `_btif_exit_dpidle_from_dpidle` -/
def exitDpidleFromDpidle : ℤ × Device :=
  let t := if d.txMode = .dma then d.txClkEnable a else (0, d)
  let r := if t.2.rxMode = .dma then t.2.rxClkEnable a else (0, t.2)
  let c := r.2.clkEnable a
  (t.1 + r.1 + c.1, c.2)

/-- `_btif_exit_dpidle` -/
def exitDpidle : ℤ × Device :=
  let r :=
    match d.state with
    | .dpidle => d.exitDpidleFromDpidle a
    | .suspend => d.init a
    | .off => d.init a
    | .on => (0, d)
  if r.1 = 0 then r.2.stateSet .on else r

/-- `_btif_enter_dpidle_from_on` -/
def enterDpidleFromOn : ℤ × Device :=
  if a.txDone then
    let t := if d.txMode = .dma then d.txClkDisable else (0, d)
    let r := if t.2.rxMode = .dma then t.2.rxClkDisable else (0, t.2)
    let c := r.2.clkDisable
    (t.1 + r.1 + c.1, c.2)
  else (-1, d)

/-- `_btif_enter_dpidle_from_sus` -/
def enterDpidleFromSus : ℤ × Device :=
  let r := d.init a
  if r.1 = 0 then r.2.enterDpidleFromOn a else r

/-- `_btif_enter_dpidle` -/
def enterDpidle : ℤ × Device :=
  let r :=
    match d.state with
    | .on => d.enterDpidleFromOn a
    | .suspend => d.enterDpidleFromSus a
    | .dpidle => (0, d)
    | .off => (eInvalState, d)
  if r.1 = 0 then r.2.stateSet .dpidle else r

/-- A call that locks the mutex, unless its caller is killed, and releases it at its end. -/
def underLock (body : Device → ℤ × Device) : ℤ × Device :=
  if a.hold then ((body d.lock).1, (body d.lock).2.release) else (eIntr, d)

/-- The body of `btif_open` under the lock. -/
def openBody : ℤ × Device :=
  let r := d.init a
  if r.1 = 0 then (0, ({ r.2 with enable := true }.stateSet .on).2) else r

/-- `btif_open` -/
def btifOpen : ℤ × Device :=
  if d.enable then (eAlreadyOpen, d) else d.underLock a (·.openBody a)

/-- The body of `btif_close` under the lock. -/
def closeBody : ℤ × Device :=
  let d := { (d.exitDpidle a).2 with enable := false }
  let d := d.controllerFree.2.controllerTxFree.2.controllerRxFree.2
  (0, (d.stateSet .off).2)

/-- `btif_close` -/
def btifClose : ℤ × Device :=
  if d.enable = false then (eNotOpen, d) else d.underLock a (·.closeBody a)

/-- `btif_exit_dpidle` -/
def btifExitDpidle : ℤ × Device := d.underLock a (·.exitDpidle a)

/-- `btif_enter_dpidle` -/
def btifEnterDpidle : ℤ × Device := d.underLock a (·.enterDpidle a)

/-- The body of `_btif_send_data` under the lock. -/
def sendBody : ℤ × Device :=
  let r := if d.state ≠ .on then d.exitDpidle a else (0, d)
  if r.1 ≠ 0 then (eInvalState, r.2) else (a.written, r.2)

/-- `btif_send_data`. With a worker the data is only queued. -/
def btifSendData : ℤ × Device :=
  match d.txCtx with
  | .user => d.underLock a (·.sendBody a)
  | .single => (a.written, d)
  | .invalid => (0, d)

/-- Freeing the controllers in `_btif_suspend`: the result of the first is overwritten. -/
def suspendFree : ℤ × Device :=
  let t := d.controllerFree.2.controllerTxFree
  let r := t.2.controllerRxFree
  (t.1 + r.1, r.2)

/-- The end of `_btif_suspend` once the controllers are freed. -/
def suspendSet : ℤ × Device :=
  let s := d.stateSet .suspend
  if s.1 ≠ 0 then
    let r := s.2.init a
    if r.1 ≠ 0 then r.2.stateSet .off else (s.1, r.2)
  else s

/-- The body of `_btif_suspend` under the lock. -/
def suspendBody : ℤ × Device :=
  if d.enable = false then (0, d)
  else if d.state = .on then (-1, d)
  else
    let e := d.exitDpidle a
    let f := if e.1 = 0 then e.2.suspendFree else e
    if f.1 ≠ 0 then f else f.2.suspendSet a

/-- `_btif_suspend` -/
def btifSuspend : ℤ × Device := d.underLock a (·.suspendBody a)

/-- The body of `_btif_resume` under the lock. -/
def resumeBody : ℤ × Device :=
  if d.enable = false then (0, d)
  else if d.state = .suspend then d.enterDpidle a
  else (0, d)

/-- `_btif_resume` -/
def btifResume : ℤ × Device := d.underLock a (·.resumeBody a)

/-- The calls. -/
inductive Call
  | «open» (a : Answers)
  | close (a : Answers)
  | enterDpidle (a : Answers)
  | exitDpidle (a : Answers)
  | sendData (a : Answers)
  | suspend (a : Answers)
  | resume (a : Answers)

def step : Call → Device
  | .open a => (d.btifOpen a).2
  | .close a => (d.btifClose a).2
  | .enterDpidle a => (d.btifEnterDpidle a).2
  | .exitDpidle a => (d.btifExitDpidle a).2
  | .sendData a => (d.btifSendData a).2
  | .suspend a => (d.btifSuspend a).2
  | .resume a => (d.btifResume a).2

/-- The driver as it is probed, with the modes and the sending of its settings. -/
def probed (txMode rxMode : Mode) (txCtx : TxType) : Device :=
  ⟨.off, false, txMode, rxMode, txCtx, 0, 0, 0, 0⟩

end Device

end Mt8169.Btif
