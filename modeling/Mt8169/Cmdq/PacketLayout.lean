import Mt8169.Cmdq.Packet
import Mathlib.Data.List.Chain

/-!
# The instruction sequence held by a packet

Growing a packet moves its last instruction, so the place of an instruction is not fixed when it is
written. What stays fixed is the byte string that the buffers spell without the link jumps, and
every operation is specified by what it adds to that string. `PktRep` relates a packet of whole
instructions to their sequence.
-/

namespace Mt8169.Cmdq

open ByteMemory MachineInt List Nat

variable {avail w shift : ℕ} {pkt pkt' : CmdqPkt} {init : List CmdqPktBuffer}
  {mem prev : CmdqPktBuffer} {ws : List ℕ}

@[simp] theorem cmdqInstSize_eq : cmdqInstSize = 8 := rfl

/-- The number of bytes ahead of the link jump in a full buffer. -/
def payloadSize : ℕ := cmdqCmdBufferSize - cmdqInstSize

@[simp] theorem payloadSize_eq : payloadSize = 3832 := rfl

/-- The command bytes in a list of buffers whose last one has `avail` bytes left. The last slot of
every other buffer holds a link jump and is left out. -/
def payloadBytes (avail : ℕ) (bufs : List CmdqPktBuffer) : List UInt8 :=
  bufs.dropLast.flatMap (fun b => bytes b.vaBase payloadSize) ++
    bufs.getLast?.elim [] fun b => bytes b.vaBase (appendOffset avail)

/-- The command bytes of a packet. -/
def CmdqPkt.payload (pkt : CmdqPkt) : List UInt8 := payloadBytes pkt.availBufSize pkt.buf

/-- The last slot of `b` holds the absolute jump to the start of `b'`. -/
def LinksTo (shift : ℕ) (b b' : CmdqPktBuffer) : Prop :=
  b.get (cmdqCmdBufferSize - cmdqInstSize) = linkJump shift b'.paBase

/-- `avail_buf_size` is a number of instructions that fit in a buffer. -/
structure Capacity (pkt : CmdqPkt) : Prop where
  le : pkt.availBufSize ≤ cmdqCmdBufferSize
  dvd : cmdqInstSize ∣ pkt.availBufSize
  empty : pkt.buf = [] → pkt.availBufSize = 0

/-- The packet holds the instruction sequence `ws`, its buffers are linked in
order and its three size counters agree. -/
structure PktRep (shift : ℕ) (pkt : CmdqPkt) (ws : List ℕ) : Prop where
  payload_eq : toWords pkt.payload = ws
  linked : pkt.buf.IsChain (LinksTo shift)
  size_add : pkt.cmdBufSize + pkt.availBufSize = pkt.bufSize
  bufSize_eq : pkt.bufSize = pkt.buf.length * cmdqCmdBufferSize
  capacity : Capacity pkt

theorem appendOffset_eq (h : avail ≤ cmdqCmdBufferSize) :
    appendOffset avail = cmdqCmdBufferSize - avail := by
  rw [cmdqCmdBufferSize_eq] at h
  rw [appendOffset, u64_eq] <;> rw [cmdqCmdBufferSize_eq] <;> omega

theorem appendOffset_sub {len : ℕ} (h : appendOffset avail + len < 2 ^ 64) :
    appendOffset (u64 (avail - len)) = appendOffset avail + len := by
  simp only [appendOffset, cmdqCmdBufferSize_eq, u64] at h ⊢
  omega

variable (b : CmdqPktBuffer) (off : ℕ)

/-- The jump holds the shifted address in its lower half. -/
theorem linkJump_eq (shift pa : ℕ) :
    linkJump shift pa = 0x10000001 * 2 ^ 32 + pa / 2 ^ shift % 2 ^ 32 := by
  have hlow : pa / 2 ^ shift % 2 ^ 32 < 2 ^ 32 := mod_lt _ (by decide)
  have hmask : pa >>> shift &&& 0xFFFFFFFF = pa / 2 ^ shift % 2 ^ 32 := by
    rw [shiftRight_eq_div_pow]
    exact and_two_pow_sub_one_eq_mod _ 32
  rw [linkJump, hmask, ← shiftLeft_add_eq_or_of_lt hlow]
  rfl

theorem linkJump_lt (shift pa : ℕ) : linkJump shift pa < 256 ^ 8 := by
  have hlow : pa / 2 ^ shift % 2 ^ 32 < 2 ^ 32 := mod_lt _ (by decide)
  rw [linkJump_eq]
  omega

@[simp] theorem CmdqPktBuffer.put_paBase (w : ℕ) : (b.put off w).paBase = b.paBase := rfl

theorem CmdqPktBuffer.get_put_same (hw : w < 256 ^ 8) : (b.put off w).get off = w := by
  rw [CmdqPktBuffer.get, CmdqPktBuffer.put, readLE_writeLE_same, mod_eq_of_lt hw]

theorem CmdqPktBuffer.put_vaBase (w : ℕ) :
    (b.put off w).vaBase = copyIn b.vaBase off (wordBytes w) := writeLE_eq_copyIn _ _ _

theorem payloadBytes_concat (avail : ℕ) (init : List CmdqPktBuffer) (b : CmdqPktBuffer) :
    payloadBytes avail (init ++ [b]) = init.flatMap (fun b => bytes b.vaBase payloadSize) ++
      bytes b.vaBase (appendOffset avail) := by
  simp [payloadBytes]

theorem payloadBytes_cons_cons (avail : ℕ) (b b' : CmdqPktBuffer) (rest : List CmdqPktBuffer) :
    payloadBytes avail (b :: b' :: rest) =
      bytes b.vaBase payloadSize ++ payloadBytes avail (b' :: rest) := by
  simp [payloadBytes]

theorem length_payloadBytes_concat (avail : ℕ) (init : List CmdqPktBuffer) (b : CmdqPktBuffer) :
    (payloadBytes avail (init ++ [b])).length =
      init.length * payloadSize + appendOffset avail := by
  simp [payloadBytes_concat, length_flatMap]

theorem cmdqPktAddCmdBuffer_nil (shift : ℕ) (mem : CmdqPktBuffer) (hbuf : pkt.buf = []) :
    cmdqPktAddCmdBuffer shift (some mem) pkt = .ok { pkt with
      buf := [mem]
      availBufSize := u64 (pkt.availBufSize + cmdqCmdBufferSize)
      bufSize := u64 (pkt.bufSize + cmdqCmdBufferSize) } := by
  simp only [cmdqPktAddCmdBuffer, cmdqPktAllocBuf, hbuf]
  rfl

/-- A further buffer takes the last word over, and a jump stands in its place. -/
theorem cmdqPktAddCmdBuffer_concat (shift : ℕ) (mem : CmdqPktBuffer)
    (hbuf : pkt.buf = init ++ [prev]) :
    cmdqPktAddCmdBuffer shift (some mem) pkt = .ok { pkt with
      buf := init ++ [prev.put payloadSize (linkJump shift mem.paBase),
        mem.put 0 (prev.get payloadSize)]
      availBufSize := u64 (u64 (pkt.availBufSize + cmdqCmdBufferSize) - cmdqInstSize)
      cmdBufSize := u64 (pkt.cmdBufSize + cmdqInstSize)
      bufSize := u64 (pkt.bufSize + cmdqCmdBufferSize) } := by
  simp only [cmdqPktAddCmdBuffer, cmdqPktAllocBuf, hbuf, modifyLast_concat,
    append_assoc, getLast?_concat]
  rfl

theorem cmdqPktAddCmdBuffer_ok (shift : ℕ) (mem : CmdqPktBuffer) (pkt : CmdqPkt) :
    ∃ pkt', cmdqPktAddCmdBuffer shift (some mem) pkt = .ok pkt' ∧
      pkt'.buf.map (·.paBase) = pkt.buf.map (·.paBase) ++ [mem.paBase] := by
  rcases eq_nil_or_concat' pkt.buf with hnil | ⟨init, prev, hbuf⟩
  · exact ⟨_, cmdqPktAddCmdBuffer_nil shift mem hnil, by simp [hnil]⟩
  · exact ⟨_, cmdqPktAddCmdBuffer_concat shift mem hbuf, by simp [hbuf]⟩

theorem CmdqPktBuffer.bytes_full :
    bytes b.vaBase cmdqCmdBufferSize =
      bytes b.vaBase payloadSize ++ wordBytes (b.get payloadSize) := by
  rw [CmdqPktBuffer.get, wordBytes_readLE, ← bytes_add]
  rfl

theorem payload_addCmdBuffer (hfull : pkt.availBufSize = 0)
    (hok : cmdqPktAddCmdBuffer shift (some mem) pkt = .ok pkt') :
    pkt'.payload = pkt.payload ∧
      (pkt'.availBufSize = 3840 ∧ pkt'.buf.length = 1 ∨ pkt'.availBufSize = 3832) ∧
      pkt'.buf ≠ [] := by
  rcases eq_nil_or_concat' pkt.buf with hnil | ⟨init, prev, hbuf⟩
  · have havail : u64 (pkt.availBufSize + cmdqCmdBufferSize) = 3840 := by simp [hfull, u64]
    rw [cmdqPktAddCmdBuffer_nil shift mem hnil, havail] at hok
    cases hok
    refine ⟨?_, Or.inl ⟨rfl, rfl⟩, by simp⟩
    simp [CmdqPkt.payload, payloadBytes, hnil, bytes, appendOffset_eq (le_refl 3840)]
  · have havail : u64 (u64 (pkt.availBufSize + cmdqCmdBufferSize) - cmdqInstSize) = 3832 := by
      simp [hfull, u64]
    rw [cmdqPktAddCmdBuffer_concat shift mem hbuf, havail] at hok
    cases hok
    refine ⟨?_, Or.inr rfl, by simp⟩
    have hold : appendOffset 0 = cmdqCmdBufferSize := rfl
    have hnew : appendOffset 3832 = 0 + (wordBytes (prev.get payloadSize)).length := rfl
    rw [CmdqPkt.payload, CmdqPkt.payload, hbuf, hfull, append_cons, payloadBytes_concat,
      payloadBytes_concat, hold, hnew, prev.bytes_full]
    simp only [CmdqPktBuffer.put_vaBase, bytes_copyIn, flatMap_append, flatMap_cons, flatMap_nil,
      bytes_copyIn_beyond _ _ (le_refl payloadSize), append_nil, append_assoc]
    rfl

variable {b : CmdqPktBuffer}

/-- Bytes at the end of the last buffer are appended to the payload. -/
theorem payloadBytes_copyIn {src : List UInt8} (h : appendOffset avail + src.length < 2 ^ 64) :
    payloadBytes (u64 (avail - src.length))
        (init ++ [{ b with vaBase := copyIn b.vaBase (appendOffset avail) src }]) =
      payloadBytes avail (init ++ [b]) ++ src := by
  rw [payloadBytes_concat, payloadBytes_concat, appendOffset_sub h]
  dsimp only
  rw [bytes_copyIn, append_assoc]

section

variable (h : Capacity pkt)
include h

theorem Capacity.exists_last (hpos : pkt.availBufSize ≠ 0) : ∃ init b, pkt.buf = init ++ [b] := by
  rcases eq_nil_or_concat' pkt.buf with hnil | ⟨init, b, hbuf⟩
  · exact absurd (h.empty hnil) hpos
  · exact ⟨init, b, hbuf⟩

theorem Capacity.addCmdBuffer (hfull : pkt.availBufSize ≤ cmdqInstSize)
    (hok : cmdqPktAddCmdBuffer shift (some mem) pkt = .ok pkt') :
    Capacity pkt' ∧ pkt'.availBufSize ≠ 0 ∧
      pkt'.bufSize = u64 (pkt.bufSize + cmdqCmdBufferSize) := by
  have hdvd := h.dvd
  simp only [cmdqInstSize_eq] at hfull hdvd
  rcases eq_nil_or_concat' pkt.buf with hnil | ⟨init, prev, hbuf⟩
  · have hsize : u64 ((0 : ℕ) + cmdqCmdBufferSize) = 3840 := by decide
    rw [cmdqPktAddCmdBuffer_nil shift mem hnil, h.empty hnil, hsize] at hok
    cases hok
    exact ⟨⟨le_refl 3840, ⟨480, rfl⟩, by simp⟩, succ_ne_zero 3839, rfl⟩
  · have hsize : u64 (u64 (pkt.availBufSize + cmdqCmdBufferSize) - cmdqInstSize) =
        pkt.availBufSize + 3832 := by
      simp only [cmdqInstSize_eq, cmdqCmdBufferSize_eq, u64]
      omega
    rw [cmdqPktAddCmdBuffer_concat shift mem hbuf, hsize] at hok
    cases hok
    refine ⟨⟨?_, ?_, by simp⟩, succ_ne_zero _, rfl⟩
    · simp only [cmdqCmdBufferSize_eq]
      omega
    · simp only [cmdqInstSize_eq]
      omega

theorem Capacity.appendWord_eq (hbuf : pkt.buf = init ++ [b])
    (hpos : pkt.availBufSize ≠ 0) (shift : ℕ) (mem : Option CmdqPktBuffer) (w : ℕ) :
    pktAppendWord shift mem w pkt = .ok { pkt with
      buf := init ++ [b.put (appendOffset pkt.availBufSize) w]
      cmdBufSize := u64 (pkt.cmdBufSize + cmdqInstSize)
      availBufSize := pkt.availBufSize - 8 } := by
  have havail : u64 (pkt.availBufSize - cmdqInstSize) = pkt.availBufSize - 8 := by
    have hle := h.le
    have hdvd := h.dvd
    simp only [cmdqInstSize_eq, cmdqCmdBufferSize_eq, u64] at *
    omega
  rw [pktAppendWord, cmdqTaskCheckAvailable, if_neg hpos, ← havail]
  simp [bind, Except.bind, pure, Except.pure, hbuf, modifyLast_concat]

/-- An append into a buffer with room adds its word to the payload. -/
theorem Capacity.append (hpos : pkt.availBufSize ≠ 0) (shift : ℕ)
    (mem : Option CmdqPktBuffer) (w : ℕ) :
    ∃ pkt', pktAppendWord shift mem w pkt = .ok pkt' ∧ Capacity pkt' ∧
      pkt'.availBufSize = pkt.availBufSize - 8 ∧ pkt'.buf.length = pkt.buf.length ∧
      pkt'.payload = pkt.payload ++ wordBytes w := by
  obtain ⟨init, b, hbuf⟩ := h.exists_last hpos
  have hle := h.le
  obtain ⟨k, hk⟩ := h.dvd
  rw [cmdqInstSize_eq] at hk
  rw [cmdqCmdBufferSize_eq] at hle
  have havail : u64 (pkt.availBufSize - (wordBytes w).length) = pkt.availBufSize - 8 := by
    rw [length_wordBytes, u64]
    omega
  have hroom : appendOffset pkt.availBufSize + (wordBytes w).length < 2 ^ 64 := by
    rw [appendOffset_eq h.le, length_wordBytes, cmdqCmdBufferSize_eq]
    omega
  refine ⟨_, h.appendWord_eq hbuf hpos shift mem w, ⟨(sub_le _ 8).trans hle, ⟨k - 1, ?_⟩,
    by simp⟩, rfl, by simp [hbuf], ?_⟩
  · dsimp only
    rw [cmdqInstSize_eq]
    omega
  · rw [CmdqPkt.payload, CmdqPkt.payload, hbuf, ← payloadBytes_copyIn hroom,
      ← CmdqPktBuffer.put_vaBase, havail]
    rfl

theorem Capacity.dvd_length_payload : 8 ∣ pkt.payload.length := by
  rw [CmdqPkt.payload]
  rcases eq_nil_or_concat' pkt.buf with hnil | ⟨init, b, hbuf⟩
  · simp [hnil, payloadBytes]
  · have hdvd := h.dvd
    rw [hbuf, length_payloadBytes_concat, appendOffset_eq h.le]
    simp only [cmdqInstSize_eq, cmdqCmdBufferSize_eq, payloadSize_eq] at *
    omega

end

theorem pktAppendWord_of_full {ext : CmdqPkt} (hfull : pkt.availBufSize = 0)
    (hext : cmdqPktAddCmdBuffer shift (some mem) pkt = .ok ext) (hpos : ext.availBufSize ≠ 0)
    (w : ℕ) : pktAppendWord shift (some mem) w pkt = pktAppendWord shift none w ext := by
  rw [pktAppendWord, pktAppendWord, cmdqTaskCheckAvailable, cmdqTaskCheckAvailable, if_pos hfull,
    if_neg hpos, hext]

/-- An append to a full packet opens another buffer. -/
theorem Capacity.extend (h : Capacity pkt) (hfull : pkt.availBufSize = 0) (shift : ℕ)
    (mem : CmdqPktBuffer) (w : ℕ) : ∃ pkt', pktAppendWord shift (some mem) w pkt = .ok pkt' ∧
      Capacity pkt' ∧
      (pkt'.availBufSize = 3832 ∧ pkt'.buf.length = 1 ∨ pkt'.availBufSize = 3824) := by
  obtain ⟨ext, hext, -⟩ := cmdqPktAddCmdBuffer_ok shift mem pkt
  obtain ⟨hcap, hpos, -⟩ := h.addCmdBuffer (by rw [hfull]; exact zero_le _) hext
  obtain ⟨-, havail, -⟩ := payload_addCmdBuffer hfull hext
  obtain ⟨pkt', hok, hcap', hrest, hlen, -⟩ := hcap.append hpos shift none w
  exact ⟨pkt', (pktAppendWord_of_full hfull hext hpos w).trans hok, hcap', by omega⟩

theorem Capacity.tail (h : Capacity pkt) (htail : pkt.buf.length ≤ 1 ∨ pkt.availBufSize ≤ 3824)
    (hok : pktAppendWord shift (some mem) w pkt = .ok pkt') :
    pkt'.buf.length ≤ 1 ∨ pkt'.availBufSize ≤ 3824 := by
  by_cases hfull : pkt.availBufSize = 0
  · obtain ⟨_, hok', -, havail⟩ := h.extend hfull shift mem w
    obtain rfl := Except.ok.inj (hok.symm.trans hok')
    omega
  · obtain ⟨_, hok', -, havail, hlen, -⟩ := h.append hfull shift (some mem) w
    obtain rfl := Except.ok.inj (hok.symm.trans hok')
    omega

theorem isChain_linksTo_put_last (h : (init ++ [b]).IsChain (LinksTo shift)) (off w : ℕ) :
    (init ++ [b.put off w]).IsChain (LinksTo shift) := by
  rw [isChain_append] at h ⊢
  refine ⟨h.1, isChain_singleton _, fun x hx y hy => ?_⟩
  have hxb := h.2.2 x hx b (by simp)
  have hyb : y = b.put off w := by simpa using hy.symm
  rw [hyb]
  exact hxb

theorem isChain_linksTo_extend (h : (init ++ [prev]).IsChain (LinksTo shift)) (w : ℕ) :
    (init ++ [prev.put payloadSize (linkJump shift mem.paBase), mem.put 0 w]).IsChain
      (LinksTo shift) := by
  have hprev := isChain_linksTo_put_last h payloadSize (linkJump shift mem.paBase)
  rw [append_cons, isChain_append]
  refine ⟨hprev, isChain_singleton _, fun x hx y hy => ?_⟩
  have hx' : prev.put payloadSize (linkJump shift mem.paBase) = x := by simpa using hx
  have hy' : mem.put 0 w = y := by simpa using hy
  rw [← hx', ← hy']
  exact CmdqPktBuffer.get_put_same prev payloadSize (linkJump_lt _ _)

theorem map_paBase_put_last (bufs : List CmdqPktBuffer) (off w : ℕ) :
    (bufs.modifyLast (·.put off w)).map (·.paBase) = bufs.map (·.paBase) := by
  rcases eq_nil_or_concat' bufs with rfl | ⟨init, b, rfl⟩
  · rfl
  · rw [modifyLast_concat]
    simp

theorem pktRep_create (shift : ℕ) : PktRep shift cmdqPktCreate [] where
  payload_eq := rfl
  linked := isChain_nil
  size_add := rfl
  bufSize_eq := rfl
  capacity := ⟨by decide, by decide, fun _ => rfl⟩

theorem PktRep.addCmdBuffer (h : PktRep shift pkt ws) (hfull : pkt.availBufSize = 0)
    (hbound : (pkt.buf.length + 1) * cmdqCmdBufferSize < 2 ^ 64)
    (hok : cmdqPktAddCmdBuffer shift (some mem) pkt = .ok pkt') :
    PktRep shift pkt' ws ∧ pkt'.availBufSize ≠ 0 := by
  have hpayload := h.payload_eq
  obtain ⟨hcap, hpos, hbuf64⟩ := h.capacity.addCmdBuffer (by rw [hfull]; exact zero_le _) hok
  have hsize := h.bufSize_eq
  have hadd := h.size_add
  rw [← (payload_addCmdBuffer hfull hok).1] at hpayload
  rw [cmdqCmdBufferSize_eq] at hbound hsize
  rw [u64_eq (by omega) (by rw [cmdqCmdBufferSize_eq]; omega), cmdqCmdBufferSize_eq] at hbuf64
  refine ⟨?_, hpos⟩
  rcases eq_nil_or_concat' pkt.buf with hnil | ⟨init, prev, hbuf⟩
  · rw [cmdqPktAddCmdBuffer_nil shift mem hnil] at hok
    cases hok
    refine ⟨hpayload, isChain_singleton _, ?_, by rw [hbuf64]; simp [hsize, hnil], hcap⟩
    rw [hbuf64]
    simp only [cmdqCmdBufferSize_eq, u64]
    omega
  · have hcmd64 : u64 (pkt.cmdBufSize + cmdqInstSize) = pkt.bufSize + 8 := by
      rw [u64_eq (by omega) (by rw [cmdqInstSize_eq]; omega), cmdqInstSize_eq]
      omega
    rw [cmdqPktAddCmdBuffer_concat shift mem hbuf, hcmd64] at hok
    cases hok
    refine ⟨hpayload, isChain_linksTo_extend (hbuf ▸ h.linked) _, ?_,
      by rw [hbuf64]; simp [hsize, hbuf]; omega, hcap⟩
    rw [hbuf64]
    simp only [cmdqInstSize_eq, cmdqCmdBufferSize_eq, u64]
    omega

/-- An append with room represents one word more. -/
theorem PktRep.append (h : PktRep shift pkt ws) (hpos : pkt.availBufSize ≠ 0)
    (hbound : pkt.buf.length * cmdqCmdBufferSize < 2 ^ 64) (hw : w < 256 ^ 8)
    {mem : Option CmdqPktBuffer} (hok : pktAppendWord shift mem w pkt = .ok pkt') :
    PktRep shift pkt' (ws ++ [w]) := by
  obtain ⟨init, b, hbuf⟩ := h.capacity.exists_last hpos
  obtain ⟨_, hok', hcap, -, -, hpayload⟩ := h.capacity.append hpos shift mem w
  obtain rfl := Except.ok.inj (hok.symm.trans hok')
  rw [h.capacity.appendWord_eq hbuf hpos] at hok
  cases hok
  have hsize := h.bufSize_eq
  have hadd := h.size_add
  rw [cmdqCmdBufferSize_eq] at hbound hsize
  exact {
    payload_eq := by
      rw [hpayload, toWords_append h.capacity.dvd_length_payload, h.payload_eq,
        toWords_wordBytes hw]
    linked := isChain_linksTo_put_last (hbuf ▸ h.linked) _ _
    size_add := by
      obtain ⟨k, hk⟩ : 8 ∣ pkt.availBufSize := h.capacity.dvd
      dsimp only
      rw [u64_eq (by omega) (by rw [cmdqInstSize_eq]; omega), cmdqInstSize_eq]
      omega
    bufSize_eq := by simp [hsize, hbuf]
    capacity := hcap }

/-- The addresses of the buffers after one append: the same ones, and the
allocated one when the packet was full. -/
def basesAfter (mem : CmdqPktBuffer) (pkt : CmdqPkt) : List ℕ :=
  if pkt.availBufSize = 0 then pkt.buf.map (·.paBase) ++ [mem.paBase] else pkt.buf.map (·.paBase)

theorem pktAppendWord_ok (shift : ℕ) (mem : CmdqPktBuffer) (w : ℕ) (pkt : CmdqPkt) :
    ∃ pkt', pktAppendWord shift (some mem) w pkt = .ok pkt' ∧
      pkt'.buf.map (·.paBase) = basesAfter mem pkt := by
  rw [pktAppendWord, cmdqTaskCheckAvailable, basesAfter]
  split_ifs
  · obtain ⟨ext, hok, hbases⟩ := cmdqPktAddCmdBuffer_ok shift mem pkt
    rw [hok]
    exact ⟨_, rfl, by rw [map_paBase_put_last, hbases]⟩
  · exact ⟨_, rfl, map_paBase_put_last _ _ _⟩

theorem PktRep.appendWord (h : PktRep shift pkt ws)
    (hbound : (pkt.buf.length + 1) * cmdqCmdBufferSize < 2 ^ 64) (hw : w < 256 ^ 8)
    (hok : pktAppendWord shift (some mem) w pkt = .ok pkt') : PktRep shift pkt' (ws ++ [w]) := by
  by_cases hfull : pkt.availBufSize = 0
  · obtain ⟨ext, hext, hbases⟩ := cmdqPktAddCmdBuffer_ok shift mem pkt
    obtain ⟨hrep, hpos⟩ := h.addCmdBuffer hfull hbound hext
    have hlen : ext.buf.length = pkt.buf.length + 1 := by
      simpa using congrArg List.length hbases
    rw [pktAppendWord_of_full hfull hext hpos] at hok
    exact hrep.append hpos (hlen ▸ hbound) hw hok
  · exact h.append hfull (by rw [succ_mul] at hbound; omega) hw hok

end Mt8169.Cmdq
