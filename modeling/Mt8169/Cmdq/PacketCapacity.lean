import Mt8169.Cmdq.PacketLayout
import Mt8169.Lib.Runs

/-!
# The free space of the last buffer

`avail_buf_size` is the sum of the free space of all buffers and is used as that of the last one.
The two agree as long as a buffer is only added when the packet is full, or when one instruction is
left, which the link jump then takes.
-/

namespace Mt8169.Cmdq

open ByteMemory MachineInt Runs

variable (shift : ℕ)

/-- `cmdq_pkt_realloc_cmd_buffer`. The buffers are those that the allocations return, one for each
round. -/
def cmdqPktReallocCmdBuffer (size : ℕ) : List CmdqPktBuffer → CmdqPkt → Except Errno CmdqPkt
  | [], pkt => .ok pkt
  | mem :: mems, pkt =>
    if pkt.bufSize < size then do
      let pkt ← cmdqPktAddCmdBuffer shift (some mem) pkt
      cmdqPktReallocCmdBuffer size mems pkt
    else .ok pkt

/-- `cmdq_pkt_get_curr_buf_pa`: the address of the next instruction. -/
def cmdqPktGetCurrBufPa (mem : Option CmdqPktBuffer) (pkt : CmdqPkt) :
    Except Errno (ℕ × CmdqPkt) := do
  let pkt ← cmdqTaskCheckAvailable shift mem pkt
  return ((pkt.buf.getLast?.elim 0 (·.paBase)) + appendOffset pkt.availBufSize, pkt)

/-- A call of an operation on a packet, with the buffers that its allocations return. -/
inductive PktCall where
  | realloc (size : ℕ) (mems : List CmdqPktBuffer)
  | addCmdBuffer (mem : CmdqPktBuffer)
  | appendCommand (mem : CmdqPktBuffer) (i : CmdqInstruction)
  | getCurrBufPa (mem : CmdqPktBuffer)

/-- The packet after a call. -/
def pktCall (pkt : CmdqPkt) (call : PktCall) : CmdqPkt :=
  let result := match call with
    | .realloc size mems => cmdqPktReallocCmdBuffer shift size mems pkt
    | .addCmdBuffer mem => cmdqPktAddCmdBuffer shift (some mem) pkt
    | .appendCommand mem i => cmdqPktAppendCommand shift (some mem) i pkt
    | .getCurrBufPa mem => (cmdqPktGetCurrBufPa shift (some mem) pkt).map Prod.snd
  result.toOption.getD pkt

/-- A call adds no buffer, or one to a packet with room for at most one instruction. -/
def CallOk (pkt : CmdqPkt) : PktCall → Prop
  | .realloc size _ => size ≤ pkt.bufSize ∨
      pkt.availBufSize ≤ cmdqInstSize ∧ size ≤ u64 (pkt.bufSize + cmdqCmdBufferSize)
  | .addCmdBuffer _ => pkt.availBufSize ≤ cmdqInstSize
  | .appendCommand _ _ | .getCurrBufPa _ => True

variable {shift} {pkt : CmdqPkt}

theorem Capacity.checkAvailable (h : Capacity pkt) (shift : ℕ) (mem : CmdqPktBuffer) :
    ∃ pkt', cmdqTaskCheckAvailable shift (some mem) pkt = .ok pkt' ∧ Capacity pkt' ∧
      pkt'.availBufSize ≠ 0 := by
  unfold cmdqTaskCheckAvailable
  split_ifs with hzero
  · obtain ⟨ext, hext, -⟩ := cmdqPktAddCmdBuffer_ok shift mem pkt
    obtain ⟨hcap, hpos, -⟩ := h.addCmdBuffer (by rw [hzero]; exact Nat.zero_le _) hext
    exact ⟨ext, hext, hcap, hpos⟩
  · exact ⟨pkt, rfl, h, hzero⟩

theorem Capacity.append_inside (h : Capacity pkt) (hpos : pkt.availBufSize ≠ 0) :
    appendOffset pkt.availBufSize + cmdqInstSize ≤ cmdqCmdBufferSize := by
  obtain ⟨hle, hdvd, -⟩ := h
  rw [appendOffset_eq hle]
  simp only [cmdqInstSize_eq, cmdqCmdBufferSize_eq] at *
  omega

/-- A call under its condition keeps the counters right. -/
theorem Capacity.call (h : Capacity pkt) {call : PktCall} (hok : CallOk pkt call) :
    Capacity (pktCall shift pkt call) := by
  cases call with
  | realloc size mems =>
    cases mems with
    | nil => exact h
    | cons mem mems =>
      unfold pktCall
      simp only [cmdqPktReallocCmdBuffer]
      by_cases hless : pkt.bufSize < size
      · obtain ⟨hfull, hsize⟩ := hok.resolve_left (Nat.not_le.mpr hless)
        obtain ⟨ext, hext, -⟩ := cmdqPktAddCmdBuffer_ok shift mem pkt
        obtain ⟨hcap, -, hbuf⟩ := h.addCmdBuffer hfull hext
        -- the second round finds the packet large enough
        have hstop : cmdqPktReallocCmdBuffer shift size mems ext = .ok ext := by
          cases mems with
          | nil => rfl
          | cons mem mems => exact if_neg (by rw [hbuf]; exact Nat.not_lt.mpr hsize)
        rw [if_pos hless, hext]
        simpa [bind, Except.bind, hstop, Except.toOption] using hcap
      · simpa [if_neg hless, Except.toOption] using h
  | addCmdBuffer mem =>
    obtain ⟨ext, hext, -⟩ := cmdqPktAddCmdBuffer_ok shift mem pkt
    simpa [pktCall, hext, Except.toOption] using (h.addCmdBuffer hok hext).1
  | appendCommand mem i =>
    by_cases hfull : pkt.availBufSize = 0
    · obtain ⟨ext, hext, hcap, -⟩ := h.extend hfull shift mem (cmdqPktInstrEncoder i)
      simpa [pktCall, cmdqPktAppendCommand, hext, Except.toOption] using hcap
    · obtain ⟨ext, hext, hcap, -⟩ := h.append hfull shift (some mem) (cmdqPktInstrEncoder i)
      simpa [pktCall, cmdqPktAppendCommand, hext, Except.toOption] using hcap
  | getCurrBufPa mem =>
    obtain ⟨ext, hext, hcap, -⟩ := h.checkAvailable shift mem
    simpa [pktCall, cmdqPktGetCurrBufPa, hext, bind, Except.bind, pure, Except.pure, Except.map,
      Except.toOption] using hcap

/-- If no call adds a buffer to a packet with room for more than one instruction, the next
instruction lies inside of the last buffer. -/
theorem appendOffset_inside_of_reaches (hrun : Reaches (pktCall shift) CallOk cmdqPktCreate pkt) :
    pkt.availBufSize ≤ cmdqCmdBufferSize ∧
      ∀ mem, ∃ pkt', cmdqTaskCheckAvailable shift (some mem) pkt = .ok pkt' ∧
        pkt'.availBufSize ≤ cmdqCmdBufferSize ∧
        appendOffset pkt'.availBufSize + cmdqInstSize ≤ cmdqCmdBufferSize := by
  have hcap : Capacity pkt := hrun.invariant ⟨by decide, by decide, fun _ => rfl⟩
    fun _ _ h hok => h.call hok
  refine ⟨hcap.le, fun mem => ?_⟩
  obtain ⟨ext, hext, h, hpos⟩ := hcap.checkAvailable shift mem
  exact ⟨ext, hext, h.le, h.append_inside hpos⟩

/-- A buffer as it is allocated. -/
def freshBuffer (pa : ℕ) : CmdqPktBuffer := ⟨fun _ => 0, pa, false⟩

/-- A packet that is extended from the start to hold one instruction. -/
theorem appendOffset_inside_realloc :
    CallOk cmdqPktCreate (.realloc 8 [freshBuffer 0]) ∧
      (pktCall 3 cmdqPktCreate (.realloc 8 [freshBuffer 0])).availBufSize ≤ cmdqCmdBufferSize := by
  have hok : CallOk cmdqPktCreate (.realloc 8 [freshBuffer 0]) := Or.inr (by decide)
  exact ⟨hok, (appendOffset_inside_of_reaches (Reaches.start.next hok)).1⟩

/-- With two buffers reserved from the start, the next instruction is written in front of the last
one. -/
theorem not_appendOffset_inside_realloc :
    let pkt := pktCall 3 cmdqPktCreate (.realloc 3841 [freshBuffer 0, freshBuffer 4096])
    pkt.availBufSize = 7672 ∧ appendOffset pkt.availBufSize = 2 ^ 64 - 3832 := by
  decide

end Mt8169.Cmdq
