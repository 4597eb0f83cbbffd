import Mathlib.Algebra.Ring.Nat
import Mathlib.Tactic.SplitIfs

/-!
# Reading messages out of a mailbox

The other processor may change the mailbox memory between any two reads. The interrupt handler of a
mailbox in a queue mode fetches the length of a message three times: to check it, to copy the
message and to tell the receiver. The check is against the size of the mailbox and not against that
of the buffer of the pin. So a copy stays within its bounds only if the length fetched for it does.
-/

namespace Mt8169.Mbox

open List

/-- `MBOX_OPT_*`. -/
inductive MboxOpt where
  | direct
  | smem
  | queueDir
  | queueSmem
  deriving DecidableEq, Repr

/-- `enum MBOX_RECV_OPT`. -/
inductive RecvOpt where
  | message
  | ack
  deriving DecidableEq, Repr

/-- `enum MBOX_PIN_CTX`. -/
inductive CbCtx where
  | inIsr
  | inProcess
  deriving DecidableEq, Repr

/-- `struct mtk_mbox_info`. The sizes are in slots of four bytes. -/
structure MboxInfo where
  id : ℕ
  slot : ℕ
  opt : MboxOpt
  slot_lt : slot < 2 ^ 30

/-- `struct mtk_mbox_pin_recv`. -/
structure PinRecv where
  mbox : ℕ
  offset : ℕ
  msgSize : ℕ
  pinIndex : ℕ
  chanId : BitVec 32
  recvOpt : RecvOpt
  cbCtxOpt : CbCtx
  /-- A callback is registered. -/
  mboxPinCb : Bool

/-- The receive pins of a device, those of the mailbox being inside of it. -/
structure PinTable (info : MboxInfo) where
  pins : List PinRecv
  inside : ∀ pin ∈ pins, pin.mbox = info.id → pin.offset + pin.msgSize ≤ info.slot

/-- The mailbox memory: the word that each of the reads finds at an address. -/
abbrev Remote : Type := ℕ → ℕ → BitVec 32

/-- What the handler does for one pin. Addresses are in slots from the start of the mailbox. -/
structure PinRun where
  pin : PinRecv
  /-- The slots that are read. -/
  reads : List ℕ
  /-- The words written to `pin_buf`. -/
  buf : List (BitVec 32)
  /-- The id and the length passed to the callback. -/
  callback : Option (BitVec 32 × ℕ)

variable (remote : Remote) {info : MboxInfo}

/-- The header of a message takes four slots. -/
def headerSlots : ℕ := 4

/-- The number of words that `mtk_memcpy_from_tinysys` copies for a number of bytes. -/
def copiedWords (size : BitVec 32) : ℕ := ((size + 3#32) >>> 2).toNat

/-- `mtk_memcpy_from_tinysys`: the words read from the slot `src` on, the first one by the read
number `time`. -/
def memcpyFromTinysys (time src : ℕ) : ℕ → List (BitVec 32)
  | 0 => []
  | n + 1 => remote time src :: memcpyFromTinysys (time + 1) (src + 1) n

variable (time : ℕ) (pin : PinRecv)

/-- The lengths that the handler fetches for a pin whose handling begins with the read number
`time`. -/
def checkedLen : BitVec 32 := remote time (pin.offset + 1)

def copiedLen : BitVec 32 := remote (time + 1) (pin.offset + 1)

def passedLen : BitVec 32 :=
  remote (time + 2 + copiedWords (copiedLen remote time pin) + 1) (pin.offset + 1)

/-- The check of `mtk_mbox_read_hd`. -/
def checkPasses (info : MboxInfo) (time : ℕ) (pin : PinRecv) : Prop :=
  pin.offset * 4 + headerSlots * 4 + (checkedLen remote time pin).toNat ≤ info.slot * 4
  deriving Decidable

/-- The callback is called in the interrupt handler. -/
def PinRecv.callsBack : Prop :=
  pin.recvOpt = .message ∧ pin.cbCtxOpt = .inIsr ∧ pin.mboxPinCb = true
  deriving Decidable

/-- The handler in a queue mode: `mtk_mbox_read_hd` and the callback. -/
def handleQueue (info : MboxInfo) (time : ℕ) (pin : PinRecv) : PinRun :=
  if checkPasses remote info time pin then
    let n := copiedWords (copiedLen remote time pin)
    let payload := pin.offset + headerSlots
    let header := [pin.offset + 1, pin.offset + 1]
    let buf := memcpyFromTinysys remote (time + 2) payload n
    if pin.callsBack then
      { pin := pin
        reads := header ++ range' payload n ++ [pin.offset, pin.offset + 1]
        buf := buf
        callback := some
          (remote (time + 2 + n) pin.offset, (passedLen remote time pin).toNat) }
    else
      { pin := pin, reads := header ++ range' payload n, buf := buf, callback := none }
  else { pin := pin, reads := [pin.offset + 1], buf := [], callback := none }

/-- The handler in the other modes: `mtk_mbox_read` and the callback. -/
def handleDirect (info : MboxInfo) (time : ℕ) (pin : PinRecv) : PinRun :=
  if info.slot < pin.offset then { pin := pin, reads := [], buf := [], callback := none }
  else
    let size := BitVec.ofNat 32 (pin.msgSize * 4)
    { pin := pin
      reads := range' pin.offset (copiedWords size)
      buf := memcpyFromTinysys remote time pin.offset (copiedWords size)
      callback := if pin.callsBack then some (pin.chanId, size.toNat) else none }

/-- One pin. -/
def handlePin (info : MboxInfo) (time : ℕ) (pin : PinRecv) : PinRun :=
  match info.opt with
  | .queueDir | .queueSmem => handleQueue remote info time pin
  | .direct | .smem => handleDirect remote info time pin

/-- The pin is of this mailbox and has been triggered. -/
def PinRecv.triggered (info : MboxInfo) (irqStatus : BitVec 32) (pin : PinRecv) : Prop :=
  pin.mbox = info.id ∧ irqStatus.getLsbD pin.pinIndex = true
  deriving Decidable

/-- The loop of `mtk_mbox_isr` over the pins, from the read number `time` on. -/
def mboxIsr (info : MboxInfo) (irqStatus : BitVec 32) : ℕ → List PinRecv → List PinRun
  | _, [] => []
  | time, pin :: pins =>
    if pin.triggered info irqStatus then
      let r := handlePin remote info time pin
      r :: mboxIsr info irqStatus (time + r.reads.length) pins
    else mboxIsr info irqStatus time pins

/-- The handler reads inside of the mailbox, writes inside of the buffer of the pin, and passes on a
length that has been copied. -/
structure PinRun.Safe (info : MboxInfo) (r : PinRun) : Prop where
  reads : ∀ a ∈ r.reads, a < info.slot
  buf : r.buf.length ≤ r.pin.msgSize
  callback : ∀ c ∈ r.callback, c.2 ≤ 4 * r.buf.length

/-- The lengths fetched for a pin are fit for their uses. -/
def LensFit (info : MboxInfo) (time : ℕ) (pin : PinRecv) : Prop :=
  pin.offset + 1 < info.slot ∧ (checkPasses remote info time pin →
    copiedWords (copiedLen remote time pin) ≤ pin.msgSize ∧
    pin.offset + headerSlots + copiedWords (copiedLen remote time pin) ≤ info.slot ∧
    (pin.callsBack → (passedLen remote time pin).toNat ≤
      4 * copiedWords (copiedLen remote time pin)))

/-- In a queue mode, the lengths fetched for the triggered pins are fit for their uses. -/
def AllLensFit (info : MboxInfo) (irqStatus : BitVec 32) : ℕ → List PinRecv → Prop
  | _, [] => True
  | time, pin :: pins =>
    if pin.triggered info irqStatus then
      (info.opt = .queueDir ∨ info.opt = .queueSmem → LensFit remote info time pin) ∧
        AllLensFit info irqStatus (time + (handlePin remote info time pin).reads.length) pins
    else AllLensFit info irqStatus time pins

variable {remote}

@[simp]
theorem length_memcpyFromTinysys (time src n : ℕ) :
    (memcpyFromTinysys remote time src n).length = n := by
  induction n generalizing time src with
  | zero => rfl
  | succ n ih => rw [memcpyFromTinysys, length_cons, ih]

theorem forall_mem_range'_lt {a n b : ℕ} (ha : a ≤ b) :
    (∀ x ∈ range' a n, x < b) ↔ a + n ≤ b := by
  simp only [mem_range'_1]
  constructor
  · intro h
    rcases Nat.eq_zero_or_pos n with rfl | hpos
    · omega
    · have := h (a + n - 1) (by omega)
      omega
  · intro h x hx
    omega

variable {pin : PinRecv}

theorem header_le {time : ℕ} (h : checkPasses remote info time pin) :
    pin.offset + headerSlots ≤ info.slot := by
  simp only [checkPasses] at h
  omega

/-- A queue is read inside exactly if the lengths in its header fit. -/
theorem handleQueue_safe_iff (time : ℕ) (pin : PinRecv) :
    (handleQueue remote info time pin).Safe info ↔ LensFit remote info time pin := by
  by_cases hcheck : checkPasses remote info time pin
  · have hheader := header_le hcheck
    have hslots : headerSlots = 4 := rfl
    have hpayload := forall_mem_range'_lt (n := copiedWords (copiedLen remote time pin)) hheader
    rw [handleQueue, if_pos hcheck, LensFit]
    constructor
    · rintro ⟨hreads, hbuf, hcallback⟩
      refine ⟨by omega, fun _ => ⟨?_, hpayload.mp fun x hx => hreads x ?_, fun hcb => ?_⟩⟩
      · split_ifs at hbuf <;> simpa using hbuf
      · split_ifs <;> simp [hx]
      · rw [if_pos hcb] at hcallback
        simpa using hcallback
    · rintro ⟨-, hfit⟩
      obtain ⟨hwords, hend, hpassed⟩ := hfit hcheck
      have hinside := hpayload.mpr hend
      split_ifs with hcb
      · refine ⟨fun a ha => ?_, by simpa using hwords, by simpa using hpassed hcb⟩
        simp only [mem_append, mem_cons, not_mem_nil, or_false] at ha
        rcases ha with ((rfl | rfl) | ha) | rfl | rfl
        all_goals first | exact hinside a ha | omega
      · refine ⟨fun a ha => ?_, by simpa using hwords, nofun⟩
        simp only [mem_append, mem_cons, not_mem_nil, or_false] at ha
        rcases ha with (rfl | rfl) | ha
        all_goals first | exact hinside a ha | omega
  · rw [handleQueue, if_neg hcheck, LensFit]
    constructor
    · intro h
      exact ⟨h.reads _ mem_cons_self, fun hpass => absurd hpass hcheck⟩
    · rintro ⟨h, -⟩
      exact ⟨fun a ha => by rwa [mem_singleton.mp ha], Nat.zero_le _, nofun⟩

theorem copiedWords_slots {n : ℕ} (h : n < 2 ^ 30) :
    copiedWords (BitVec.ofNat 32 (n * 4)) = n ∧ (BitVec.ofNat 32 (n * 4)).toNat = 4 * n := by
  have hsize : (BitVec.ofNat 32 (n * 4)).toNat = 4 * n := by
    rw [BitVec.toNat_ofNat]
    omega
  refine ⟨?_, hsize⟩
  rw [copiedWords, BitVec.toNat_ushiftRight, BitVec.toNat_add, hsize, Nat.shiftRight_eq_div_pow]
  have hthree : (3#32).toNat = 3 := rfl
  omega

/-- A pin without a queue is always read inside. -/
theorem handleDirect_safe (time : ℕ) (hin : pin.offset + pin.msgSize ≤ info.slot) :
    (handleDirect remote info time pin).Safe info := by
  have hslot := info.slot_lt
  obtain ⟨hwords, hsize⟩ := copiedWords_slots (n := pin.msgSize) (by omega)
  have hoffset : ¬ info.slot < pin.offset := by omega
  simp only [handleDirect, if_neg hoffset, hwords, hsize]
  refine ⟨(forall_mem_range'_lt (by omega)).mpr hin, ?_, ?_⟩
  · exact Nat.le_of_eq (length_memcpyFromTinysys _ _ _)
  · intro c hc
    rw [length_memcpyFromTinysys]
    split_ifs at hc
    · obtain rfl := Option.some.inj hc
      exact Nat.le_refl _
    · cases hc

theorem handlePin_safe_iff (time : ℕ) (hin : pin.offset + pin.msgSize ≤ info.slot) :
    (handlePin remote info time pin).Safe info ↔
      (info.opt = .queueDir ∨ info.opt = .queueSmem → LensFit remote info time pin) := by
  rw [handlePin]
  cases hopt : info.opt with
  | direct | smem => simp [handleDirect_safe time hin]
  | queueDir | queueSmem => simp [handleQueue_safe_iff]

/-- The handler is safe exactly if all lengths fit. -/
theorem mboxIsr_safe_iff (irqStatus : BitVec 32) {pins : List PinRecv}
    (hin : ∀ pin ∈ pins, pin.mbox = info.id → pin.offset + pin.msgSize ≤ info.slot) (time : ℕ) :
    (∀ r ∈ mboxIsr remote info irqStatus time pins, r.Safe info) ↔
      AllLensFit remote info irqStatus time pins := by
  induction pins generalizing time with
  | nil => simp [mboxIsr, AllLensFit]
  | cons pin pins ih =>
    have hrest := ih fun p hp => hin p (mem_cons_of_mem pin hp)
    rw [mboxIsr, AllLensFit]
    split_ifs with htriggered
    · rw [forall_mem_cons, hrest, handlePin_safe_iff time (hin pin mem_cons_self htriggered.1)]
    · exact hrest time

/-- Whatever the other processor does to the memory, a run of the handler reads inside of the
mailbox, writes inside of the buffers of the pins and passes on lengths that have been copied,
exactly if the lengths that it fetches in a queue mode are fit for their uses: the one fetched for
the copy is within the buffer of the pin and within the mailbox, and the one passed on is within the
copy. -/
theorem mboxIsr_safe_iff_allLensFit (remote : Remote) (info : MboxInfo) (irqStatus : BitVec 32)
    (table : PinTable info) :
    (∀ r ∈ mboxIsr remote info irqStatus 0 table.pins, r.Safe info) ↔
      AllLensFit remote info irqStatus 0 table.pins :=
  mboxIsr_safe_iff irqStatus table.inside 0

/-- A mailbox of sixteen slots with one pin, which has a buffer of one slot. -/
def smallMailbox : MboxInfo := ⟨0, 16, .queueDir, by decide⟩

def smallPins : PinTable smallMailbox where
  pins := [⟨0, 0, 1, 0, 0, .message, .inIsr, true⟩]
  inside := by decide

/-- A message of eight bytes. -/
def longMessage : Remote := fun _ a => if a = 1 then 8#32 else 0#32

/-- The message fits the mailbox, and two words are written to the buffer of one. -/
theorem not_mboxIsr_safe_longMessage :
    ¬ ∀ r ∈ mboxIsr longMessage smallMailbox 1#32 0 smallPins.pins, r.Safe smallMailbox := by
  intro h
  have hbuf := fun r hr => (h r hr).buf
  revert hbuf
  decide

end Mt8169.Mbox
