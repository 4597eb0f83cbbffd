import Mathlib.Data.List.Induction
import Mathlib.Data.Nat.Bitwise
import Mt8169.Lib.MachineInt

/-!
# The receive DMA

The DMA appends the received bytes to a vFIFO at WPT, and `hal_rx_dma_irq_handler` gives the bytes
from RPT on to the callback. Both pointers have a wrap bit above the offset. The number of bytes is
computed with the wrap bit that WPT had in the last turn of the loop: RPT has been set to that WPT.
-/

namespace Mt8169.Btif.RxDma

open MachineInt List Function

/-- `DMA_WPT_MASK` and `DMA_RPT_MASK`. -/
def dmaMask : ℕ := 0x0000FFFF

/-- `DMA_WPT_WRAP` and `DMA_RPT_WRAP`. -/
def dmaWrap : ℕ := 0x00010000

/-- A channel with a vFIFO. `validSize` is what `VFF_VALID_SIZE` reads for an RPT and a WPT. -/
structure Channel where
  vffSize : ℕ
  validSize : ℕ → ℕ → ℕ
  pos : 0 < vffSize
  lt_wrap : vffSize < dmaWrap
  validSize_self : ∀ pt, validSize pt pt = 0

/-- `struct _MTK_BTIF_DMA_VFIFO_`. -/
structure Vfifo where
  wpt : ℕ
  rpt : ℕ
  lastWptWrap : ℕ
  lastRptWrap : ℕ

/-- `hal_btif_vfifo_reset`. -/
def vfifoReset : Vfifo := ⟨0, 0, 0, 0⟩

/-- The registers of the channel, its vFIFO, `i_ret` of the running call, the bytes in the buffers
given to `rx_cb`, and the bytes received. -/
structure State (β : Type) where
  wpt : ℕ
  rpt : ℕ
  buf : ℕ → β
  vfifo : Vfifo
  ret : ℕ
  given : List β
  received : List β

/-- The state after `hal_btif_vfifo_reset` and `hal_btif_dma_hw_init`. -/
def init {β : Type} (buf : ℕ → β) : State β :=
  ⟨vfifoReset.wpt, vfifoReset.rpt, buf, vfifoReset, 0, [], []⟩

/-- The bytes that arrive in a turn of the loop before its accesses to the registers and the
vFIFO, and after the last one. -/
structure Arrivals (β : Type) where
  beforeRpt : List β
  beforeWpt : List β
  beforeCallback : List β
  beforeSecond : List β
  beforeWrite : List β
  after : List β

/-- The variables in a turn of the loop. -/
structure Round where
  rptWrap : ℕ
  wptWrap : ℕ
  rpt : ℕ
  wpt : ℕ
  realLen : ℕ

/-- The bytes of a buffer. -/
def bytes {β : Type} (buf : ℕ → β) (start len : ℕ) : List β :=
  (range len).map fun k => buf (start + k)

/-- A call of `rx_cb`. -/
def State.rxCb {β : Type} (s : State β) (start len : ℕ) : State β :=
  { s with given := s.given ++ bytes s.buf start len }

namespace Channel

variable {β : Type} (ch : Channel)

/-- The DMA appends a byte, if it does not overtake RPT: the vFIFO is full if the pointers only
differ in the wrap bit. -/
def dmaWrite (s : State β) (b : β) : State β :=
  let offset := s.wpt &&& dmaMask
  if offset = s.rpt &&& dmaMask ∧ s.wpt &&& dmaWrap ≠ s.rpt &&& dmaWrap then s
  else
    { s with
      buf := update s.buf offset b
      wpt := if offset + 1 = ch.vffSize then (s.wpt &&& dmaWrap) ^^^ dmaWrap else s.wpt + 1
      received := s.received ++ [b] }

def arrive (s : State β) (bs : List β) : State β := bs.foldl ch.dmaWrite s

/-- The variables for two pointers. -/
def round (lastWptWrap rpt wpt : ℕ) : Round where
  rptWrap := rpt &&& dmaWrap
  wptWrap := wpt &&& dmaWrap
  rpt := rpt &&& dmaMask
  wpt := wpt &&& dmaMask
  realLen :=
    if wpt &&& dmaWrap ≠ lastWptWrap then
      u32 ((wpt &&& dmaMask : ℕ) + ch.vffSize - (rpt &&& dmaMask : ℕ))
    else u32 ((wpt &&& dmaMask : ℕ) - (rpt &&& dmaMask : ℕ))

/-- The calls of `rx_cb`. -/
def deliver (s : State β) (r : Round) (beforeSecond : List β) : State β :=
  let tailLen := u32 ((ch.vffSize : ℤ) - r.rpt)
  let s :=
    if tailLen ≥ r.realLen then s.rxCb r.rpt r.realLen
    else (ch.arrive (s.rxCb r.rpt tailLen) beforeSecond).rxCb 0 (r.realLen - tailLen)
  { s with ret := s.ret + r.realLen }

/-- The end of a turn. -/
def finish (s : State β) (r : Round) : State β :=
  let rpt := u32 ((r.rpt : ℤ) + r.realLen)
  let rptWrap := if rpt ≥ ch.vffSize then r.rptWrap ^^^ dmaWrap else r.rptWrap
  let rpt := (if rpt ≥ ch.vffSize then rpt % ch.vffSize else rpt) ||| rptWrap
  { s with vfifo := ⟨r.wpt, rpt, r.wptWrap, rptWrap⟩, rpt := rpt }

/-- The reads of the registers, the condition of the loop in `hal_rx_dma_irq_handler` and its body.
If the condition does not hold, then the call returns a number, and the next turn is the first one
of another call. -/
def halRxDmaIrqHandler (s : State β) (a : Arrivals β) : Option ℕ × State β :=
  let validLen := ch.validSize s.rpt s.wpt
  let s := ch.arrive s a.beforeRpt
  let rpt := s.rpt
  let s := ch.arrive s a.beforeWpt
  if validLen > 0 ∨ rpt ≠ s.wpt then
    let r := ch.round s.vfifo.lastWptWrap rpt s.wpt
    let s := ch.deliver (ch.arrive s a.beforeCallback) r a.beforeSecond
    (none, ch.arrive (ch.finish (ch.arrive s a.beforeWrite) r) a.after)
  else (some s.ret, ch.arrive { s with ret := 0 } a.after)

/-- The state after some turns, with the bytes that arrive before the first call. -/
def run (buf : ℕ → β) (before : List β) (turns : List (Arrivals β)) : State β :=
  turns.foldl (fun s a => (ch.halRxDmaIrqHandler s a).2) (ch.arrive (init buf) before)

/-- The pointer behind a number of bytes. -/
def pointer (n : ℕ) : ℕ := dmaWrap * (n / ch.vffSize % 2) + n % ch.vffSize

variable {ch} {len read given : ℕ}

/-- How a pointer moves: within the buffer, or over its end. -/
theorem add_cases (ch : Channel) (n len : ℕ) (hlen : len ≤ ch.vffSize) :
    (n % ch.vffSize + len < ch.vffSize ∧ (n + len) % ch.vffSize = n % ch.vffSize + len ∧
      (n + len) / ch.vffSize = n / ch.vffSize) ∨
    (ch.vffSize ≤ n % ch.vffSize + len ∧
      (n + len) % ch.vffSize + ch.vffSize = n % ch.vffSize + len ∧
      (n + len) / ch.vffSize = n / ch.vffSize + 1) := by
  have hmod := Nat.mod_lt n ch.pos
  have hdiv : (n + len) / ch.vffSize = (n % ch.vffSize + len) / ch.vffSize + n / ch.vffSize := by
    rw [← Nat.add_mul_div_left _ _ ch.pos, Nat.add_right_comm, Nat.mod_add_div]
  rw [hdiv, ← Nat.mod_add_mod]
  clear hdiv
  generalize n % ch.vffSize = offset at *
  rcases Nat.lt_or_ge (offset + len) ch.vffSize with hin | hout
  · rw [Nat.mod_eq_of_lt hin, Nat.div_eq_of_lt hin]
    omega
  · rw [Nat.mod_eq_sub_mod hout, Nat.mod_eq_of_lt (by omega), Nat.div_eq_sub_div ch.pos hout,
      Nat.div_eq_of_lt (by omega)]
    omega

theorem pointer_and (n : ℕ) : ch.pointer n &&& dmaMask = n % ch.vffSize ∧
    ch.pointer n &&& dmaWrap = dmaWrap * (n / ch.vffSize % 2) := by
  have hmod := Nat.mod_lt n ch.pos
  have hlt := ch.lt_wrap
  have hmask : ch.pointer n &&& dmaMask = ch.pointer n % 2 ^ 16 :=
    Nat.and_two_pow_sub_one_eq_mod _ 16
  have hwrap : ch.pointer n &&& dmaWrap = ((ch.pointer n).testBit 16).toNat * 2 ^ 16 :=
    Nat.and_two_pow _ 16
  rw [hmask, hwrap, Nat.toNat_testBit, pointer]
  unfold dmaWrap at *
  omega

theorem or_eq_pointer (n : ℕ) :
    n % ch.vffSize ||| dmaWrap * (n / ch.vffSize % 2) = ch.pointer n := by
  have hmod := Nat.mod_lt n ch.pos
  rw [Nat.or_comm, pointer]
  exact (Nat.two_pow_add_eq_or_of_lt (i := 16) (hmod.trans ch.lt_wrap) _).symm

theorem wrap_xor (n : ℕ) : dmaWrap * (n % 2) ^^^ dmaWrap = dmaWrap * ((n + 1) % 2) := by
  rcases Nat.mod_two_eq_zero_or_one n with h | h
  · rw [h, Nat.succ_mod_two_eq_one_iff.mpr h]
    rfl
  · rw [h, Nat.succ_mod_two_eq_zero_iff.mpr h]
    rfl

/-- RPT is behind `read` bytes and has the wrap bit of the last turn, the bytes from there on are in
their cells, and `given` bytes were given to the callback. -/
structure Inv (ch : Channel) (read given : ℕ) (s : State β) : Prop where
  rpt : s.rpt = ch.pointer read
  wpt : s.wpt = ch.pointer s.received.length
  le : read ≤ s.received.length
  room : s.received.length ≤ read + ch.vffSize
  last : s.vfifo.lastWptWrap = dmaWrap * (read / ch.vffSize % 2)
  cells : ∀ k, read ≤ k → k < s.received.length → s.received[k]? = some (s.buf (k % ch.vffSize))
  given_le : given ≤ s.received.length
  given : s.given = s.received.take given

variable {s : State β}

/-- A byte from the controller keeps the invariant. -/
theorem Inv.dmaWrite (h : ch.Inv read given s) (b : β) :
    ch.Inv read given (ch.dmaWrite s b) ∧
      s.received.length ≤ (ch.dmaWrite s b).received.length := by
  have hmod := Nat.mod_lt s.received.length ch.pos
  have hoffset : s.wpt &&& dmaMask = s.received.length % ch.vffSize := by
    rw [h.wpt, (pointer_and _).1]
  unfold Channel.dmaWrite
  simp only [hoffset]
  split
  · exact ⟨h, Nat.le_refl _⟩
  rename_i hfull
  simp only [h.wpt, h.rpt, pointer_and] at hfull
  have hroom : s.received.length < read + ch.vffSize := by
    refine Nat.lt_of_le_of_ne h.room fun hN => hfull ?_
    rw [hN, Nat.add_mod_right, Nat.add_div_right _ ch.pos, dmaWrap]
    omega
  refine ⟨⟨h.rpt, ?_, ?_, ?_, h.last, fun k hlo hhi => ?_, ?_, ?_⟩, ?_⟩
  · simp only [h.wpt, pointer_and, length_append, length_singleton]
    have hxor := wrap_xor (s.received.length / ch.vffSize)
    rcases ch.add_cases s.received.length 1 ch.pos with
      ⟨hin, hoff, hdiv⟩ | ⟨hout, hoff, hdiv⟩
    · rw [if_neg (by omega), pointer, pointer, hoff, hdiv, Nat.add_assoc]
    · rw [if_pos (by omega), pointer, hdiv, hxor]
      omega
  · simpa using Nat.le_succ_of_le h.le
  · simpa using Nat.succ_le_of_lt hroom
  · simp only [length_append, length_singleton] at hhi
    rcases Nat.lt_or_ge k s.received.length with hk | hk
    · obtain ⟨d, hd⟩ := Nat.exists_eq_add_of_lt hk
      have hne : k % ch.vffSize ≠ s.received.length % ch.vffSize := by
        rw [hd, Nat.add_assoc]
        rcases ch.add_cases k (d + 1) (by omega) with hin | hout <;> omega
      simp only [getElem?_append_left hk, update_of_ne hne]
      exact h.cells k hlo hk
    · obtain rfl : k = s.received.length := by omega
      simp
  · simpa using Nat.le_succ_of_le h.given_le
  · simpa [take_append_of_le_length h.given_le] using h.given
  · simp

theorem Inv.arrive (h : ch.Inv read given s) (bs : List β) :
    ch.Inv read given (ch.arrive s bs) ∧ s.received.length ≤ (ch.arrive s bs).received.length := by
  induction bs generalizing s with
  | nil => exact ⟨h, Nat.le_refl _⟩
  | cons b bs ih =>
    obtain ⟨hnext, hle⟩ := h.dmaWrite b
    exact ⟨(ih hnext).1, hle.trans (ih hnext).2⟩

/-- A callback for the next received bytes keeps the invariant. -/
theorem Inv.rxCb (h : ch.Inv read given s) (start len : ℕ) (hread : read ≤ given)
    (hlen : given + len ≤ s.received.length)
    (hcells : ∀ k < len, (given + k) % ch.vffSize = start + k) :
    ch.Inv read (given + len) (s.rxCb start len) := by
  refine { h with given_le := hlen, given := ?_ }
  show s.given ++ _ = s.received.take _
  rw [h.given, List.take_add]
  congr 1
  refine ext_getElem? fun k => ?_
  by_cases hk : k < len
  · rw [getElem?_take_of_lt hk, getElem?_drop, h.cells _ (by omega) (by omega), hcells k hk, bytes,
      getElem?_map, getElem?_range hk]
    rfl
  · rw [getElem?_eq_none (by simp [bytes]; omega), getElem?_eq_none (by simp; omega)]

/-- The variables of a turn for `len` bytes. -/
def roundOf (ch : Channel) (read len : ℕ) : Round where
  rptWrap := dmaWrap * (read / ch.vffSize % 2)
  wptWrap := dmaWrap * ((read + len) / ch.vffSize % 2)
  rpt := read % ch.vffSize
  wpt := (read + len) % ch.vffSize
  realLen := len

theorem round_eq (hlen : len ≤ ch.vffSize) :
    ch.round (dmaWrap * (read / ch.vffSize % 2)) (ch.pointer read) (ch.pointer (read + len)) =
      ch.roundOf read len := by
  have hmod := Nat.mod_lt read ch.pos
  have hlt := ch.lt_wrap
  simp only [round, roundOf, pointer_and, Round.mk.injEq, true_and]
  unfold dmaWrap u32 at *
  rcases ch.add_cases read len hlen with ⟨hin, hoff, hdiv⟩ | ⟨hout, hoff, hdiv⟩
  · rw [hdiv, hoff, if_neg (not_not.mpr rfl)]
    omega
  · rw [hdiv, if_pos (by omega)]
    omega

/-- A round delivers the bytes up to the pointer that it has read. -/
theorem Inv.deliver (h : ch.Inv read read s) (hlen : read + len ≤ s.received.length)
    (beforeSecond : List β) :
    ch.Inv read (read + len) (ch.deliver s (ch.roundOf read len) beforeSecond) := by
  have hmod := Nat.mod_lt read ch.pos
  have hroom := h.room
  have htail : u32 ((ch.vffSize : ℤ) - (read % ch.vffSize : ℕ)) =
      ch.vffSize - read % ch.vffSize := by
    have hlt := ch.lt_wrap
    unfold dmaWrap u32 at *
    omega
  simp only [Channel.deliver, roundOf, htail]
  split
  · refine { h.rxCb _ _ (Nat.le_refl _) hlen fun k hk => ?_ with }
    rcases ch.add_cases read k (by omega) with hin | hout <;> omega
  · have hfirst := h.rxCb (read % ch.vffSize) (ch.vffSize - read % ch.vffSize)
      (Nat.le_refl _) (by omega) fun k hk => by
        rcases ch.add_cases read k (by omega) with hin | hout <;> omega
    obtain ⟨harrived, hle⟩ := hfirst.arrive beforeSecond
    have hsecond := harrived.rxCb 0 (len - (ch.vffSize - read % ch.vffSize))
      (by omega) (Nat.le_trans (by omega) (Nat.le_trans hlen hle)) fun k hk => by
        rw [Nat.add_assoc]
        rcases ch.add_cases read (ch.vffSize - read % ch.vffSize + k) (by omega) with
          hin | hout <;> omega
    rw [Nat.add_assoc, Nat.add_sub_cancel' (by omega)] at hsecond
    exact { hsecond with }

/-- At its end, the read pointer is behind these bytes. -/
theorem Inv.finish (h : ch.Inv read (read + len) s) (hlen : len ≤ ch.vffSize) :
    ch.Inv (read + len) (read + len) (ch.finish s (ch.roundOf read len)) := by
  have hmod := Nat.mod_lt read ch.pos
  have hlt := ch.lt_wrap
  have hrpt : u32 (((read % ch.vffSize : ℕ) : ℤ) + len) = read % ch.vffSize + len := by
    unfold dmaWrap u32 at *
    omega
  simp only [Channel.finish, roundOf, hrpt]
  refine ⟨?_, h.wpt, h.given_le, h.room.trans (by omega), rfl,
    fun k hlo hhi => h.cells k (by omega) hhi, h.given_le, h.given⟩
  dsimp only
  rcases ch.add_cases read len hlen with ⟨hin, hoff, hdiv⟩ | ⟨hout, hoff, hdiv⟩
  · rw [if_neg (by omega), if_neg (by omega), ← hoff, ← hdiv, or_eq_pointer]
  · rw [if_pos hout, if_pos hout, wrap_xor, ← hdiv, Nat.mod_add_mod, or_eq_pointer]

/-- A turn of the loop delivers in order, and the last one delivers all that had arrived. -/
theorem Inv.halRxDmaIrqHandler (h : ch.Inv read read s) (a : Arrivals β) :
    ∃ read', ch.Inv read' read' (ch.halRxDmaIrqHandler s a).2 ∧
      ((ch.halRxDmaIrqHandler s a).1 = none →
        (ch.arrive s a.beforeRpt).received.length ≤ read') := by
  obtain ⟨h1, -⟩ := h.arrive a.beforeRpt
  obtain ⟨h2, hle⟩ := h1.arrive a.beforeWpt
  simp only [Channel.halRxDmaIrqHandler]
  generalize ch.arrive (ch.arrive s a.beforeRpt) a.beforeWpt = s2 at *
  split
  · obtain ⟨len, hlen⟩ := Nat.exists_eq_add_of_le h2.le
    have hroom := h2.room
    have hround : ch.round s2.vfifo.lastWptWrap (ch.arrive s a.beforeRpt).rpt s2.wpt =
        ch.roundOf read len := by
      rw [h2.last, h1.rpt, h2.wpt, hlen, round_eq (by omega)]
    obtain ⟨h3, hle3⟩ := h2.arrive a.beforeCallback
    rw [hround]
    have h4 := (h3.deliver (hlen ▸ hle3) a.beforeSecond).arrive a.beforeWrite
    exact ⟨_, ((h4.1.finish (by omega)).arrive a.after).1, fun _ => hle.trans hlen.le⟩
  · exact ⟨read, (Inv.arrive (s := { s2 with ret := 0 }) { h2 with } a.after).1, nofun⟩

/-- The invariant holds after every run of turns. -/
theorem inv_run (ch : Channel) (buf : ℕ → β) (before : List β) (turns : List (Arrivals β)) :
    ∃ read, ch.Inv read read (ch.run buf before turns) := by
  induction turns using List.reverseRecOn with
  | nil =>
    have hinit : ch.Inv 0 0 (init buf) := by
      constructor <;> simp [init, vfifoReset, pointer]
    exact ⟨0, (hinit.arrive before).1⟩
  | append_singleton turns a ih =>
    obtain ⟨read, h⟩ := ih
    obtain ⟨read', h', -⟩ := h.halRxDmaIrqHandler a
    rw [run, foldl_append]
    exact ⟨read', h'⟩

/-- No byte arrives. -/
def quiet : Arrivals β := ⟨[], [], [], [], [], []⟩

theorem received_quiet (s : State β) :
    (ch.halRxDmaIrqHandler s quiet).2.received = s.received := by
  rw [Channel.halRxDmaIrqHandler]
  split
  · change (ch.deliver s _ []).received = s.received
    rw [Channel.deliver]
    split <;> rfl
  · rfl

/-- RPT is not beyond WPT, and the bytes before RPT were given to the callback, in their order. -/
def InOrder (ch : Channel) (s : State β) : Prop :=
  ∃ read, s.rpt = ch.pointer read ∧ s.wpt = ch.pointer s.received.length ∧
    read ≤ s.received.length ∧ s.received.length ≤ read + ch.vffSize ∧
    s.given = s.received.take read

/-- After every turn of the loop the received bytes before RPT have been given to the callback, and
without new bytes the call returns in the next turn or the one after it. -/
theorem run_inOrder (ch : Channel) (buf : ℕ → β) (before : List β) (turns : List (Arrivals β)) :
    ch.InOrder (ch.run buf before turns) ∧
      ((ch.halRxDmaIrqHandler (ch.run buf before turns) quiet).1 = none →
        (ch.halRxDmaIrqHandler (ch.run buf before (turns ++ [quiet])) quiet).1 ≠ none) := by
  obtain ⟨read, h⟩ := inv_run ch buf before turns
  refine ⟨⟨read, h.rpt, h.wpt, h.le, h.room, h.given⟩, fun hturn => ?_⟩
  obtain ⟨read', h', hread⟩ := h.halRxDmaIrqHandler quiet
  have hle := hread hturn
  have hle' := h'.le
  rw [received_quiet] at hle'
  have heq : (ch.halRxDmaIrqHandler (ch.run buf before turns) quiet).2.rpt =
      (ch.halRxDmaIrqHandler (ch.run buf before turns) quiet).2.wpt := by
    rw [h'.rpt, h'.wpt, received_quiet, Nat.le_antisymm hle' hle]
  rw [run, foldl_append]
  change (ch.halRxDmaIrqHandler (ch.halRxDmaIrqHandler (ch.run buf before turns) quiet).2 quiet).1 ≠
    none
  generalize (ch.halRxDmaIrqHandler (ch.run buf before turns) quiet).2 = s at heq
  simp [Channel.halRxDmaIrqHandler, quiet, Channel.arrive, heq, ch.validSize_self]

/-- A vFIFO of four bytes. `VFF_VALID_SIZE` is the distance between the pointers. -/
def fourBytes : Channel where
  vffSize := 4
  validSize := fun rpt wpt =>
    if rpt = wpt then 0 else ((wpt &&& dmaMask) + 3 - (rpt &&& dmaMask)) % 4 + 1
  pos := by decide
  lt_wrap := by decide
  validSize_self := fun _ => if_pos rfl

/-- Three bytes are read, and then three that lie across the end of the vFIFO. -/
def acrossWrap : State ℕ :=
  fourBytes.run (fun _ => 0) [1, 2, 3] [quiet, { quiet with beforeRpt := [4, 5], beforeWpt := [6] }]

/-- The bytes on both sides of the end are given in their order, RPT gets its wrap bit, and the call
returns in the next turn. -/
theorem run_inOrder_acrossWrap :
    acrossWrap.given = [1, 2, 3, 4, 5, 6] ∧ acrossWrap.rpt = dmaWrap + 2 ∧
    (fourBytes.halRxDmaIrqHandler acrossWrap quiet).1 = some 6 ∧
    fourBytes.InOrder acrossWrap ∧
    (fourBytes.halRxDmaIrqHandler
      (fourBytes.run (fun _ => 0) [1, 2, 3] ([] ++ [quiet])) quiet).1 ≠ none :=
  ⟨by decide, by decide, by decide, (run_inOrder fourBytes _ _ _).1,
    (run_inOrder fourBytes _ _ _).2 (by decide)⟩

end Channel

end Mt8169.Btif.RxDma
