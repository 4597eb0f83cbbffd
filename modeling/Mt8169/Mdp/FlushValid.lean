import Mt8169.Cmdq.PacketLayout
import Mt8169.Mdp.Flush

/-!
# Which words a flush lets into a packet

The bytes of a flushed packet are those that the two copying passes were served, with the kernel's
own instructions around them. The checked words are those of another pass. The results say exactly
when the words from the user buffer are all valid.
-/

namespace Mt8169.Mdp

open ByteMemory MachineInt Cmdq List Nat

variable {pkt : CmdqPkt} {bs : List UInt8} {env : FlushEnv} {chunk size remain : ℕ} {user : UserMem}
  {desc : CmdqCommand}

/-- The packet holds the byte string `bs`, and has a buffer wherever it has room. -/
structure HoldsBytes (pkt : CmdqPkt) (bs : List UInt8) : Prop where
  payload_eq : pkt.payload = bs
  nonempty : pkt.availBufSize ≠ 0 → pkt.buf ≠ []

theorem holdsBytes_create : HoldsBytes cmdqPktCreate [] where
  payload_eq := rfl
  nonempty := fun h => absurd rfl h

/-- Bytes copied into the last buffer are held. -/
theorem HoldsBytes.copy (h : HoldsBytes pkt bs) (hbuf : pkt.buf ≠ []) (src : List UInt8)
    (hlen : bs.length + src.length < 2 ^ 64) (cmdBufSize : ℕ) :
    HoldsBytes { pkt with
      buf := pkt.buf.modifyLast (copyToBuffer (appendOffset pkt.availBufSize) src)
      availBufSize := u64 (pkt.availBufSize - src.length)
      cmdBufSize := cmdBufSize } (bs ++ src) := by
  obtain ⟨init, b, hconcat⟩ := (eq_nil_or_concat' pkt.buf).resolve_left hbuf
  have hpayload := h.payload_eq
  rw [CmdqPkt.payload, hconcat] at hpayload
  have hroom : appendOffset pkt.availBufSize + src.length < 2 ^ 64 := by
    rw [← hpayload, length_payloadBytes_concat] at hlen
    omega
  constructor
  · simp only [CmdqPkt.payload, hconcat, modifyLast_concat]
    rw [← hpayload, ← payloadBytes_copyIn hroom]
    rfl
  · intro _
    simp [hconcat, modifyLast_concat]

theorem HoldsBytes.room (h : HoldsBytes pkt bs) (shift : ℕ) (mem : CmdqPktBuffer) :
    ∃ pkt', cmdqTaskCheckAvailable shift (some mem) pkt = .ok pkt' ∧
      HoldsBytes pkt' bs ∧ pkt'.availBufSize ≠ 0 := by
  by_cases hfull : pkt.availBufSize = 0
  · obtain ⟨pkt', hok, -⟩ := cmdqPktAddCmdBuffer_ok shift mem pkt
    obtain ⟨hpayload, havail, hbuf⟩ := payload_addCmdBuffer hfull hok
    refine ⟨pkt', by rw [cmdqTaskCheckAvailable, if_pos hfull, hok], ?_, by omega⟩
    exact ⟨hpayload.trans h.payload_eq, fun _ => hbuf⟩
  · exact ⟨pkt, by rw [cmdqTaskCheckAvailable, if_neg hfull], h, hfull⟩

theorem put_eq_copyToBuffer (off w : ℕ) :
    (fun b : CmdqPktBuffer => b.put off w) = copyToBuffer off (wordBytes w) := by
  funext b
  rw [copyToBuffer, ← CmdqPktBuffer.put_vaBase]
  rfl

theorem HoldsBytes.appendWord (h : HoldsBytes pkt bs) (hlen : bs.length + 8 < 2 ^ 64)
    (shift : ℕ) (mem : CmdqPktBuffer) (w : ℕ) :
    ∃ pkt', pktAppendWord shift (some mem) w pkt = .ok pkt' ∧
      HoldsBytes pkt' (bs ++ wordBytes w) := by
  obtain ⟨roomy, hok, hroomy, havail⟩ := h.room shift mem
  refine ⟨_, ?_, hroomy.copy (hroomy.nonempty havail) (wordBytes w) (by simpa using hlen)
    (u64 (roomy.cmdBufSize + cmdqInstSize))⟩
  rw [pktAppendWord, hok, ← put_eq_copyToBuffer]
  rfl

/-- The allocations of a flush succeed, and the kernel adds a bounded number of
instructions of its own. -/
structure FlushEnv.Ready (env : FlushEnv) : Prop where
  alloc : ∀ k, (env.alloc k).isSome
  checkBuffer : env.instCheckBuffer.isSome
  backup : env.backupReg.isSome
  perfBegin_le : env.perfBegin.length ≤ 2 ^ 20
  backup_le : (env.backupReg.getD []).length ≤ 2 ^ 20
  perfEnd_le : env.perfEnd.length ≤ 2 ^ 20

theorem length_flatMap_wordBytes (ws : List ℕ) : (ws.flatMap wordBytes).length = 8 * ws.length := by
  induction ws with
  | nil => rfl
  | cons w ws ih =>
    rw [flatMap_cons, length_append, ih, length_wordBytes, length_cons]
    omega

theorem CmdqCommand.copySize_lt (desc : CmdqCommand) : desc.copySize < 2 ^ 32 := by
  unfold CmdqCommand.copySize u32
  omega

theorem HoldsBytes.appendKernelWords (henv : env.Ready) (h : HoldsBytes pkt bs) (ws : List ℕ)
    (hlen : bs.length + 8 * ws.length < 2 ^ 64) :
    HoldsBytes (appendKernelWords env ws pkt) (bs ++ ws.flatMap wordBytes) := by
  induction ws generalizing pkt bs with
  | nil => simpa [Mdp.appendKernelWords] using h
  | cons w ws ih =>
    obtain ⟨mem, hmem⟩ := Option.isSome_iff_exists.mp (henv.alloc pkt.buf.length)
    rw [length_cons] at hlen
    obtain ⟨pkt', hok, hpkt'⟩ := h.appendWord (by omega) env.gceShiftBit mem w
    have hrest := ih hpkt' (by rw [length_append, length_wordBytes]; omega)
    simp only [Mdp.appendKernelWords, foldl_cons, hmem, hok] at hrest ⊢
    simpa using hrest

theorem readable_split (user : UserMem) (pass : UserRead) (addr : ℕ) (h : chunk ≤ size) :
    readable user pass addr size =
      (readable user pass addr chunk && readable user pass (addr + chunk) (size - chunk)) := by
  obtain ⟨k, rfl⟩ := Nat.exists_eq_add_of_le h
  simp [readable, range_add, Function.comp_def, add_assoc]

/-- A copy of readable bytes gives a packet that holds `bs`, and any other copy fails. -/
def Copies (result : Except Errno CmdqPkt) (readable : Bool) (bs : List UInt8) : Prop :=
  (readable = true ∧ ∃ pkt, result = .ok pkt ∧ HoldsBytes pkt bs) ∨
    (readable = false ∧ ∃ e, result = .error e)

/-- The loop copies the bytes that are served to it, unless a read fails. -/
theorem copyCmdLoop_copies (henv : env.Ready) (user : UserMem) (pass : UserRead)
    (src size fuel : ℕ) (h : HoldsBytes pkt bs) (hfuel : remain ≤ fuel) (hsize : remain ≤ size)
    (hlen : bs.length + remain < 2 ^ 64) :
    Copies (copyCmdLoop env user pass src size fuel remain pkt)
      (readable user pass (src + (size - remain)) remain)
      (bs ++ bytes (fun i => servedByte user pass (src + (size - remain) + i)) remain) := by
  induction fuel generalizing remain pkt bs with
  | zero =>
    obtain rfl : remain = 0 := by omega
    exact .inl ⟨rfl, pkt, rfl, by simpa [bytes] using h⟩
  | succ fuel ih =>
    by_cases hdone : remain = 0
    · subst hdone
      exact .inl ⟨rfl, pkt, by simp [copyCmdLoop, pure, Except.pure], by simpa [bytes] using h⟩
    obtain ⟨mem, hmem⟩ := Option.isSome_iff_exists.mp (henv.alloc pkt.buf.length)
    obtain ⟨roomy, hok, hroomy, havail⟩ := h.room env.gceShiftBit mem
    obtain ⟨chunk, hchunk⟩ : ∃ chunk, chunk =
      if roomy.availBufSize > remain then remain else roomy.availBufSize := ⟨_, rfl⟩
    have hpos : 0 < chunk ∧ chunk ≤ remain := by
      rw [hchunk]
      split_ifs <;> omega
    rw [copyCmdLoop, if_neg hdone, hmem, hok, readable_split user pass _ hpos.2]
    simp only [bind, Except.bind, ← hchunk]
    by_cases hread : readable user pass (src + (size - remain)) chunk = true
    · have hnext : src + (size - (remain - chunk)) = src + (size - remain) + chunk := by omega
      have hcopied := hroomy.copy (hroomy.nonempty havail)
        (bytes (fun i => servedByte user pass (src + (size - remain) + i)) chunk)
        (by rw [length_bytes]; omega) (u64 (roomy.cmdBufSize + chunk))
      rw [length_bytes] at hcopied
      have hrest := ih hcopied (show remain - chunk ≤ fuel by omega) (by omega)
        (by rw [length_append, length_bytes]; omega)
      have hsplit := bytes_add (fun i => servedByte user pass (src + (size - remain) + i)) chunk
        (remain - chunk)
      rw [show chunk + (remain - chunk) = remain by omega] at hsplit
      rw [hnext, append_assoc] at hrest
      rw [copyFromUser, if_pos hread, hread, Bool.true_and, hsplit]
      simpa only [add_assoc] using hrest
    · rw [copyFromUser, if_neg hread]
      exact .inr ⟨by simp [hread], .ENOMEM, rfl⟩

theorem cmdqPktCopyCmd_copies (henv : env.Ready) (user : UserMem) (pass : UserRead)
    (src size : ℕ) (h : HoldsBytes pkt bs) (hlen : bs.length + size < 2 ^ 64) :
    Copies (cmdqPktCopyCmd env user pass src size pkt) (readable user pass src size)
      (bs ++ bytes (fun i => servedByte user pass (src + i)) size) := by
  simpa [cmdqPktCopyCmd] using copyCmdLoop_copies henv user pass src size size h le_rfl le_rfl hlen

/-- The bytes the check sees behind the words of a range of `size` bytes. Past the
range it sees what the round before left in the check buffer, or what was there
before the flush. -/
def recheckedMem (user : UserMem) (stale : Mem) (src size : ℕ) : Mem := fun i =>
  if i < size then servedByte user .check (src + i)
  else if cmdqCmdBufferSize ≤ i then servedByte user .check (src + (i - cmdqCmdBufferSize))
  else stale i

/-- The words the check sees all pass it. -/
def RecheckPasses (writeAddrList : List WriteAddr) (user : UserMem) (stale : Mem)
    (src size : ℕ) : Prop :=
  ∀ w ∈ words (recheckedMem user stale src size) ((size + 7) / 8),
    cmdqCoreCheckInstrValid writeAddrList w = true

/-- What the check buffer holds when `pos` bytes have been checked. -/
def staleAt (user : UserMem) (stale : Mem) (src pos : ℕ) : Mem := fun i =>
  if pos = 0 then stale i else servedByte user .check (src + (pos - cmdqCmdBufferSize + i))

theorem copyIn_bytes (buffer m : Mem) (k i : ℕ) :
    copyIn buffer 0 (bytes m k) i = if i < k then m i else buffer i := by
  rw [copyIn, if_pos (Nat.zero_le i), Nat.sub_zero]
  split_ifs with hi
  · simp [bytes, hi]
  · exact getD_eq_default _ _ (by rwa [length_bytes, ← not_lt])

theorem words_checkRound {stale buffer : Mem} {src pos : ℕ} (hpos : cmdqCmdBufferSize ∣ pos)
    (hchunk : chunk ≤ cmdqCmdBufferSize) (hend : pos + chunk ≤ size)
    (hlast : chunk = cmdqCmdBufferSize ∨ pos + chunk = size)
    (hbuffer : ∀ i < cmdqCmdBufferSize, buffer i = staleAt user stale src pos i) :
    words (copyIn buffer 0 (bytes (fun i => servedByte user .check (src + pos + i)) chunk))
        ((chunk + 7) / 8) =
      words (fun i => recheckedMem user stale src size (pos + i)) ((chunk + 7) / 8) := by
  rw [cmdqCmdBufferSize_eq] at hpos hchunk hlast
  apply words_congr
  intro i hi
  rw [copyIn_bytes, recheckedMem]
  by_cases hin : i < chunk
  · rw [if_pos hin, if_pos (by omega), ← add_assoc]
  · rw [if_neg hin, hbuffer i (by rw [cmdqCmdBufferSize_eq]; omega), if_neg (by omega), staleAt,
      cmdqCmdBufferSize_eq]
    by_cases hzero : pos = 0
    · rw [if_pos hzero, if_neg (by omega), hzero, zero_add]
    · rw [if_neg hzero, if_pos (by omega), show pos + i - 3840 = pos - 3840 + i by omega]

theorem staleAt_next (user : UserMem) (stale buffer : Mem) (src pos : ℕ) :
    ∀ i < cmdqCmdBufferSize,
      copyIn buffer 0 (bytes (fun i => servedByte user .check (src + pos + i))
        cmdqCmdBufferSize) i =
        staleAt user stale src (pos + cmdqCmdBufferSize) i := by
  intro i hi
  rw [copyIn_bytes, if_pos hi, staleAt, if_neg (by rw [cmdqCmdBufferSize_eq]; omega),
    Nat.add_sub_cancel, ← Nat.add_assoc]

theorem checkUserLoop_zero (env : FlushEnv) (user : UserMem) (fuel curSrc : ℕ) (buffer : Mem) :
    checkUserLoop env user fuel curSrc 0 buffer = true := by
  cases fuel <;> rfl

theorem words_split (m : Mem) (hchunk : chunk ≤ remain)
    (hlast : chunk = cmdqCmdBufferSize ∨ chunk = remain) :
    words m ((remain + 7) / 8) = words m ((chunk + 7) / 8) ++
      words (fun i => m (chunk + i)) ((remain - chunk + 7) / 8) := by
  rcases hlast with hfull | hrest
  · rw [cmdqCmdBufferSize_eq] at hfull
    subst hfull
    rw [show (remain + 7) / 8 = 480 + (remain - 3840 + 7) / 8 by omega, words_add]
  · subst hrest
    simp [words]

/-- The loop passes exactly if the reads succeed and all words it sees are valid. -/
theorem checkUserLoop_iff (env : FlushEnv) (user : UserMem) (stale : Mem) (src : ℕ)
    (fuel pos remain : ℕ) (buffer : Mem) (hfuel : remain ≤ fuel) (hpos : cmdqCmdBufferSize ∣ pos)
    (hsize : pos + remain = size)
    (hbuffer : ∀ i < cmdqCmdBufferSize, buffer i = staleAt user stale src pos i) :
    checkUserLoop env user fuel (src + pos) remain buffer = true ↔
      readable user .check (src + pos) remain = true ∧
      ∀ w ∈ words (fun i => recheckedMem user stale src size (pos + i)) ((remain + 7) / 8),
        cmdqCoreCheckInstrValid env.writeAddrList w = true := by
  induction fuel generalizing pos remain buffer with
  | zero =>
    obtain rfl : remain = 0 := by omega
    simp [checkUserLoop, readable, words]
  | succ fuel ih =>
    by_cases hdone : remain = 0
    · subst hdone
      simp [checkUserLoop, readable, words]
    simp only [checkUserLoop, if_neg hdone, copyFromUser]
    generalize hchunk :
      (if remain > cmdqCmdBufferSize then cmdqCmdBufferSize else remain) = chunk
    have hle : chunk ≤ cmdqCmdBufferSize ∧ chunk ≤ remain := by
      rw [← hchunk]
      split_ifs <;> omega
    have hlast : chunk = cmdqCmdBufferSize ∨ chunk = remain := by
      rw [← hchunk]
      split_ifs <;> simp
    have hround := words_checkRound hpos hle.1 (show pos + chunk ≤ size by omega)
      (hlast.imp_right fun h => by omega) hbuffer
    have hsplit := words_split (fun i => recheckedMem user stale src size (pos + i)) hle.2 hlast
    -- the rest is either empty or starts a further round
    have hrest : checkUserLoop env user fuel (src + pos + chunk) (remain - chunk)
        (copyIn buffer 0 (bytes (fun i => servedByte user .check (src + pos + i)) chunk)) = true ↔
        readable user .check (src + pos + chunk) (remain - chunk) = true ∧
        ∀ w ∈ words (fun i => recheckedMem user stale src size (pos + (chunk + i)))
          ((remain - chunk + 7) / 8), cmdqCoreCheckInstrValid env.writeAddrList w = true := by
      rcases hlast with hfull | hall
      · subst hfull
        have hstep := ih (pos + cmdqCmdBufferSize) (remain - cmdqCmdBufferSize) _
          (by rw [cmdqCmdBufferSize_eq]; omega) (Nat.dvd_add hpos (dvd_refl _)) (by omega)
          (staleAt_next user stale buffer src pos)
        simpa only [add_assoc] using hstep
      · subst hall
        simp [checkUserLoop_zero, readable, words]
    rw [readable_split user .check _ hle.2, hsplit]
    by_cases hread : readable user .check (src + pos) chunk = true
    · rw [if_pos hread]
      simp only [Bool.and_eq_true, all_eq_true, hround, hrest, hread, true_and, forall_mem_append]
      exact and_left_comm
    · simp [hread]

/-- The check of the copy, in terms of the bytes served. -/
theorem cmdqCoreCheckUserValid_iff {stale : Mem} (hbuffer : env.instCheckBuffer = some stale)
    (user : UserMem) (src size : ℕ) :
    cmdqCoreCheckUserValid env user src size = true ↔
      readable user .check src size = true ∧
        RecheckPasses env.writeAddrList user stale src size := by
  have hloop := checkUserLoop_iff env user stale src size 0 size stale le_rfl (dvd_zero _)
    (zero_add size) (fun i _ => rfl)
  simpa [cmdqCoreCheckUserValid, hbuffer, RecheckPasses] using hloop

/-- The kernel instructions between the checked commands and the last two. -/
def FlushEnv.between (env : FlushEnv) (desc : CmdqCommand) : List ℕ :=
  (if desc.wantsBackup then env.backupReg.getD [] else []) ++ env.perfEnd

/-- The bytes of the packet that a flush builds, in terms of what the two copying
passes were served. -/
def packetBytes (env : FlushEnv) (desc : CmdqCommand) (user : UserMem) : List UInt8 :=
  env.perfBegin.flatMap wordBytes ++
    bytes (fun i => servedByte user .copy (desc.pVABase + i)) desc.copySize ++
    (env.between desc).flatMap wordBytes ++
    bytes (fun i => servedByte user .tail (desc.pVABase + desc.copySize + i)) (2 * cmdqInstSize)

/-- None of the reads of a flush faults. -/
structure ReadsSucceed (desc : CmdqCommand) (user : UserMem) : Prop where
  copy : readable user .copy desc.pVABase desc.copySize = true
  check : readable user .check desc.pVABase desc.copySize = true
  tail : readable user .tail (desc.pVABase + desc.copySize) (2 * cmdqInstSize) = true

/-- The words seen by the check of a flush all pass it. -/
def FlushEnv.recheckPasses (env : FlushEnv) (desc : CmdqCommand) (user : UserMem) : Prop :=
  RecheckPasses env.writeAddrList user (env.instCheckBuffer.getD fun _ => 0) desc.pVABase
    desc.copySize

/-- The commands of the kernel between the two copies. -/
theorem appendBetween_spec (henv : env.Ready) (desc : CmdqCommand) (h : HoldsBytes pkt bs)
    (hlen : bs.length ≤ 2 ^ 33) :
    ∃ pkt', appendBackupReg env desc pkt = .ok pkt' ∧
      HoldsBytes (appendKernelWords env env.perfEnd pkt')
        (bs ++ (env.between desc).flatMap wordBytes) := by
  obtain ⟨ws, hws⟩ := Option.isSome_iff_exists.mp henv.backup
  have hbackup := henv.backup_le
  have hend := henv.perfEnd_le
  rw [hws, Option.getD_some] at hbackup
  unfold appendBackupReg FlushEnv.between
  by_cases hwants : desc.wantsBackup = true
  · rw [if_pos hwants, if_pos hwants, hws]
    have hfirst := h.appendKernelWords henv ws (by omega)
    have hsecond := hfirst.appendKernelWords henv env.perfEnd
      (by simp only [length_append, length_flatMap_wordBytes]; omega)
    exact ⟨_, rfl, by simpa using hsecond⟩
  · rw [if_neg hwants, if_neg hwants]
    exact ⟨pkt, rfl, by simpa using h.appendKernelWords henv env.perfEnd (by omega)⟩

theorem check_iff (henv : env.Ready) (desc : CmdqCommand) (user : UserMem) :
    cmdqCoreCheckUserValid env user desc.pVABase desc.copySize = true ↔
      readable user .check desc.pVABase desc.copySize = true ∧ env.recheckPasses desc user := by
  obtain ⟨stale, hstale⟩ := Option.isSome_iff_exists.mp henv.checkBuffer
  rw [cmdqCoreCheckUserValid_iff hstale, FlushEnv.recheckPasses, hstale, Option.getD_some]

/-- The first copy takes all but the last two commands. -/
theorem copyAllButLast_copies (henv : env.Ready) (desc : CmdqCommand) (user : UserMem) :
    Copies (copyAllButLast env desc user (appendKernelWords env env.perfBegin cmdqPktCreate))
      (readable user .copy desc.pVABase desc.copySize) (env.perfBegin.flatMap wordBytes ++
        bytes (fun i => servedByte user .copy (desc.pVABase + i)) desc.copySize) := by
  have hsize := desc.copySize_lt
  have hbegin := henv.perfBegin_le
  have hbefore := holdsBytes_create.appendKernelWords henv env.perfBegin
    (by simp only [length_nil]; omega)
  unfold copyAllButLast
  by_cases hpos : desc.copySize > 0
  · rw [if_pos hpos]
    exact cmdqPktCopyCmd_copies henv user .copy _ _ hbefore
      (by rw [length_flatMap_wordBytes]; omega)
  · obtain hzero : desc.copySize = 0 := by omega
    rw [hzero]
    exact .inl ⟨rfl, _, rfl, by simpa [bytes] using hbefore⟩

theorem tailPass_copies (henv : env.Ready) (desc : CmdqCommand) (user : UserMem)
    (h : HoldsBytes pkt (env.perfBegin.flatMap wordBytes ++
      bytes (fun i => servedByte user .copy (desc.pVABase + i)) desc.copySize)) :
    ∃ pkt', appendBackupReg env desc pkt = .ok pkt' ∧
      Copies (cmdqPktCopyCmd env user .tail (desc.pVABase + desc.copySize) (2 * cmdqInstSize)
          (appendKernelWords env env.perfEnd pkt'))
        (readable user .tail (desc.pVABase + desc.copySize) (2 * cmdqInstSize))
        (packetBytes env desc user) := by
  have hsize := desc.copySize_lt
  have hbegin := henv.perfBegin_le
  have hbackup := henv.backup_le
  have hend := henv.perfEnd_le
  have hbetween : (env.between desc).length ≤ 2 ^ 21 := by
    unfold FlushEnv.between
    split_ifs <;> simp only [length_append, length_nil] <;> omega
  obtain ⟨pkt', hok, hholds⟩ := appendBetween_spec henv desc h
    (by simp only [length_append, length_flatMap_wordBytes, length_bytes]; omega)
  exact ⟨pkt', hok, cmdqPktCopyCmd_copies henv user .tail _ _ hholds (by
    simp only [length_append, length_flatMap_wordBytes, length_bytes, cmdqInstSize_eq]
    omega)⟩

/-- The flush succeeds exactly if the reads do and the words pass. -/
theorem cmdqMdpFlushAsync_cases (henv : env.Ready) (desc : CmdqCommand) (user : UserMem) :
    (∃ pkt, cmdqMdpFlushAsync env desc user = .ok pkt ∧ ReadsSucceed desc user ∧
        env.recheckPasses desc user ∧ pkt.payload = packetBytes env desc user) ∨
      (∃ e, cmdqMdpFlushAsync env desc user = .error e) ∧
        ¬(ReadsSucceed desc user ∧ env.recheckPasses desc user) := by
  rcases copyAllButLast_copies henv desc user with ⟨hcopy, pkt1, hok1, h1⟩ | ⟨hcopy, e, herror⟩
  · by_cases hcheck : cmdqCoreCheckUserValid env user desc.pVABase desc.copySize = true
    · obtain ⟨hreadCheck, hpass⟩ := (check_iff henv desc user).mp hcheck
      obtain ⟨pkt2, hok2, hcopies⟩ := tailPass_copies henv desc user h1
      simp only [cmdqMdpFlushAsync, bind, Except.bind, hok1, hcheck, if_true, hok2]
      rcases hcopies with ⟨htail, pkt, hok, hholds⟩ | ⟨htail, e, herror⟩
      · exact .inl ⟨pkt, hok, ⟨hcopy, hreadCheck, htail⟩, hpass, hholds.payload_eq⟩
      · exact .inr ⟨⟨e, herror⟩, fun h => Bool.false_ne_true (htail.symm.trans h.1.tail)⟩
    · refine .inr ⟨⟨.EFAULT, ?_⟩, fun h => hcheck ((check_iff henv desc user).mpr ⟨h.1.check, h.2⟩)⟩
      simp only [cmdqMdpFlushAsync, bind, Except.bind, hok1, if_neg hcheck]
      rfl
  · refine .inr ⟨⟨e, ?_⟩, fun h => Bool.false_ne_true (hcopy.symm.trans h.1.copy)⟩
    simp only [cmdqMdpFlushAsync, bind, Except.bind, herror]

theorem cmdqDriverIoctlExec_ok (henv : env.Ready)
    (hok : cmdqDriverIoctlExec env desc user = .ok pkt) :
    desc.accepted = true ∧ ReadsSucceed desc user ∧ env.recheckPasses desc user ∧
      pkt.payload = packetBytes env desc user := by
  have haccepted : desc.accepted = true := by
    by_contra hrefused
    rw [cmdqDriverIoctlExec, if_neg hrefused] at hok
    cases hok
  rw [cmdqDriverIoctlExec, if_pos haccepted] at hok
  rcases cmdqMdpFlushAsync_cases henv desc user with ⟨pkt', hok', hflushed⟩ | ⟨⟨e, herror⟩, -⟩
  · rw [hok] at hok'
    cases hok'
    exact ⟨haccepted, hflushed⟩
  · rw [hok] at herror
    cases herror

/-- The `k`-th word of the packet has a byte that was copied from the user buffer:
from the block ahead of the kernel's instructions or from the last two instructions. -/
def FromUser (env : FlushEnv) (desc : CmdqCommand) (k : ℕ) : Prop :=
  let start := 8 * env.perfBegin.length
  let tail := start + desc.copySize + 8 * (env.between desc).length
  (start < 8 * k + 8 ∧ 8 * k < start + desc.copySize) ∨
    (tail < 8 * k + 8 ∧ 8 * k < tail + 2 * cmdqInstSize)

/-- The words of a byte string that come from the user buffer all pass the check. -/
def UserWordsValid (env : FlushEnv) (desc : CmdqCommand) (bs : List UInt8) : Prop :=
  ∀ k w, (toWords bs)[k]? = some w → FromUser env desc k →
    cmdqCoreCheckInstrValid env.writeAddrList w = true

/-- The packet of an accepted and flushed command has no word from the user buffer
that the check would refuse. -/
def FlushedWordsValid (env : FlushEnv) (desc : CmdqCommand) (user : UserMem) : Prop :=
  ∀ pkt, cmdqDriverIoctlExec env desc user = .ok pkt → UserWordsValid env desc pkt.payload

section Served

variable (env : FlushEnv) (desc : CmdqCommand) (user : UserMem)

/-- Word `j` that a pass was served behind an address. -/
def servedWord (pass : UserRead) (addr j : ℕ) : ℕ :=
  readLE (fun i => servedByte user pass (addr + i)) (8 * j) 8

/-- The bytes behind the whole words of the first copy: the rest of what it was served, the kernel's
instructions and what the last copy was served. -/
def edgeBytes : List UInt8 :=
  bytes (fun i => servedByte user .copy (desc.pVABase + (8 * (desc.copySize / 8) + i)))
      (desc.copySize % 8) ++ (env.between desc).flatMap wordBytes ++
    bytes (fun i => servedByte user .tail (desc.pVABase + desc.copySize + i)) (2 * cmdqInstSize)

/-- The `k`-th word of these has a byte of the user. -/
def AtEdge (k : ℕ) : Prop :=
  let tail := desc.copySize % 8 + 8 * (env.between desc).length
  8 * k < desc.copySize % 8 ∨ tail < 8 * k + 8 ∧ 8 * k < tail + 2 * cmdqInstSize

/-- What the two copies were served passes the check. A whole word of the first copy does so too if
the check was shown the same one. Behind a block of whole words come the last two instructions,
otherwise words that are put together at its edge. -/
structure ServedValid : Prop where
  copy : ∀ j < desc.copySize / 8,
    servedWord user .copy desc.pVABase j = servedWord user .check desc.pVABase j ∨
      cmdqCoreCheckInstrValid env.writeAddrList (servedWord user .copy desc.pVABase j) = true
  tail : 8 ∣ desc.copySize → ∀ j < 2, cmdqCoreCheckInstrValid env.writeAddrList
    (servedWord user .tail (desc.pVABase + desc.copySize) j) = true
  edge : ¬8 ∣ desc.copySize → ∀ k w, (toWords (edgeBytes env desc user))[k]? = some w →
    AtEdge env desc k → cmdqCoreCheckInstrValid env.writeAddrList w = true

variable {env} {desc} {user}

theorem length_toWords (bs : List UInt8) : (toWords bs).length = bs.length / 8 := by
  simp [toWords, words]

theorem getElem?_words (m : Mem) (n k : ℕ) :
    (words m n)[k]? = if k < n then some (readLE m (8 * k) 8) else none := by
  by_cases hk : k < n <;> simp [words, hk]

/-- The words of the packet are the kernel's, the whole words of the first copy and the edge. -/
theorem toWords_packetBytes :
    toWords (packetBytes env desc user) = toWords (env.perfBegin.flatMap wordBytes) ++
      (words (fun i => servedByte user .copy (desc.pVABase + i)) (desc.copySize / 8) ++
        toWords (edgeBytes env desc user)) := by
  have hcopy : bytes (fun i => servedByte user .copy (desc.pVABase + i)) desc.copySize =
      bytes (fun i => servedByte user .copy (desc.pVABase + i)) (8 * (desc.copySize / 8)) ++
        bytes (fun i => servedByte user .copy (desc.pVABase + (8 * (desc.copySize / 8) + i)))
          (desc.copySize % 8) := by
    rw [← bytes_add, Nat.div_add_mod]
  have hwhole := toWords_bytes (fun i => servedByte user .copy (desc.pVABase + i))
    (8 * (desc.copySize / 8))
  rw [Nat.mul_div_cancel_left _ (by decide)] at hwhole
  have hsplit : packetBytes env desc user = env.perfBegin.flatMap wordBytes ++
      (bytes (fun i => servedByte user .copy (desc.pVABase + i)) (8 * (desc.copySize / 8)) ++
        edgeBytes env desc user) := by
    simp only [packetBytes, edgeBytes, hcopy, append_assoc]
  rw [hsplit, toWords_append (by simp), toWords_append (by simp), hwhole]

/-- The words of the user, within the first copy and at its edge. -/
theorem userWordsValid_iff : UserWordsValid env desc (packetBytes env desc user) ↔
    (∀ j < desc.copySize / 8,
      cmdqCoreCheckInstrValid env.writeAddrList (servedWord user .copy desc.pVABase j) = true) ∧
    ∀ k w, (toWords (edgeBytes env desc user))[k]? = some w → AtEdge env desc k →
      cmdqCoreCheckInstrValid env.writeAddrList w = true := by
  have hkernel : (toWords (env.perfBegin.flatMap wordBytes)).length = env.perfBegin.length := by
    rw [length_toWords, length_flatMap_wordBytes, Nat.mul_div_cancel_left _ (by decide)]
  have hcopied : (words (fun i => servedByte user .copy (desc.pVABase + i))
      (desc.copySize / 8)).length = desc.copySize / 8 := by simp [words]
  unfold UserWordsValid FromUser AtEdge
  rw [toWords_packetBytes]
  constructor
  · intro h
    constructor
    · intro j hj
      refine h (env.perfBegin.length + j) _ ?_ (Or.inl (by omega))
      rw [getElem?_append_right (by omega), hkernel, Nat.add_sub_cancel_left,
        getElem?_append_left (by omega), getElem?_words, if_pos hj]
      rfl
    · intro k w hw hedge
      refine h (env.perfBegin.length + desc.copySize / 8 + k) w ?_ (by dsimp only; omega)
      rw [getElem?_append_right (by omega), getElem?_append_right (by omega), hkernel, hcopied,
        ← hw]
      congr 1
      omega
  · rintro ⟨hcopy, hedge⟩ k w hw huser
    dsimp only at huser
    have hstart : env.perfBegin.length ≤ k := by omega
    rw [getElem?_append_right (by omega), hkernel] at hw
    by_cases hin : k - env.perfBegin.length < desc.copySize / 8
    · rw [getElem?_append_left (by omega), getElem?_words, if_pos hin] at hw
      cases hw
      exact hcopy _ hin
    · rw [getElem?_append_right (by omega), hcopied] at hw
      exact hedge _ w hw (by omega)

/-- Behind whole words, the edge is the kernel's instructions and the last two. -/
theorem edge_iff (haligned : 8 ∣ desc.copySize) :
    (∀ k w, (toWords (edgeBytes env desc user))[k]? = some w → AtEdge env desc k →
      cmdqCoreCheckInstrValid env.writeAddrList w = true) ↔
    ∀ j < 2, cmdqCoreCheckInstrValid env.writeAddrList
      (servedWord user .tail (desc.pVABase + desc.copySize) j) = true := by
  have hrest : desc.copySize % 8 = 0 := Nat.mod_eq_zero_of_dvd haligned
  have hlen : (toWords ((env.between desc).flatMap wordBytes)).length =
      (env.between desc).length := by
    rw [length_toWords, length_flatMap_wordBytes, Nat.mul_div_cancel_left _ (by decide)]
  have hedge : toWords (edgeBytes env desc user) =
      toWords ((env.between desc).flatMap wordBytes) ++
        words (fun i => servedByte user .tail (desc.pVABase + desc.copySize + i)) 2 := by
    rw [edgeBytes, hrest, append_assoc, show bytes _ 0 = [] from rfl, nil_append,
      toWords_append (by simp), toWords_bytes]
    rfl
  rw [hedge]
  unfold AtEdge
  rw [hrest, cmdqInstSize_eq]
  constructor
  · intro h j hj
    refine h ((env.between desc).length + j) _ ?_ (by dsimp only; omega)
    rw [getElem?_append_right (by omega), hlen, Nat.add_sub_cancel_left, getElem?_words, if_pos hj]
    rfl
  · intro h k w hw hk
    dsimp only at hk
    rw [getElem?_append_right (by omega), hlen, getElem?_words, if_pos (by omega)] at hw
    cases hw
    exact h _ (by omega)

/-- A word that the check has seen passed it. -/
theorem recheck_word (hpass : env.recheckPasses desc user) {j : ℕ} (hj : j < desc.copySize / 8) :
    cmdqCoreCheckInstrValid env.writeAddrList (servedWord user .check desc.pVABase j) = true := by
  refine hpass _ (mem_map.mpr ⟨j, mem_range.mpr (by omega), readLE_congr fun i _ hi => ?_⟩)
  rw [recheckedMem, if_pos (by omega)]

/-- The served words are valid exactly if those of the packet are. -/
theorem servedValid_iff (hpass : env.recheckPasses desc user) :
    ServedValid env desc user ↔ UserWordsValid env desc (packetBytes env desc user) := by
  rw [userWordsValid_iff]
  constructor
  · intro h
    refine ⟨fun j hj => (h.copy j hj).elim (fun heq => heq ▸ recheck_word hpass hj) id, ?_⟩
    by_cases haligned : 8 ∣ desc.copySize
    · exact (edge_iff haligned).mpr (h.tail haligned)
    · exact h.edge haligned
  · rintro ⟨hcopy, hedge⟩
    exact ⟨fun j hj => Or.inr (hcopy j hj), fun haligned => (edge_iff haligned).mp hedge,
      fun _ => hedge⟩

end Served

/-- The words from the user buffer are all valid exactly when the command is refused
for its descriptor, a read of the buffer faults, the check is shown a word it refuses,
or what the two copies were served passes it: each word that the first copy was served and the check
was not shown, and the last two instructions. -/
theorem flushedWordsValid_iff {env : FlushEnv} (henv : env.Ready) (desc : CmdqCommand)
    (user : UserMem) :
    FlushedWordsValid env desc user ↔
      (desc.accepted = false ∨ ¬ReadsSucceed desc user ∨ ¬env.recheckPasses desc user ∨
        ServedValid env desc user) := by
  rw [or_iff_not_imp_left, or_iff_not_imp_left, or_iff_not_imp_left, not_not, not_not,
    Bool.not_eq_false]
  constructor
  · intro hvalid haccepted hreads hpass
    obtain ⟨pkt, hok, -, -, hpayload⟩ :=
      (cmdqMdpFlushAsync_cases henv desc user).resolve_right fun h => h.2 ⟨hreads, hpass⟩
    rw [servedValid_iff hpass, ← hpayload]
    exact hvalid pkt (by rw [cmdqDriverIoctlExec, if_pos haccepted, hok])
  · intro hcond pkt hok
    obtain ⟨haccepted, hreads, hpass, hpayload⟩ := cmdqDriverIoctlExec_ok henv hok
    rw [hpayload]
    exact (servedValid_iff hpass).mp (hcond haccepted hreads hpass)

/-- A kernel side without profiling or register backup, with zeroed buffers. -/
def plainEnv : FlushEnv where
  gceShiftBit := 3
  alloc := fun k => some { vaBase := fun _ => 0, paBase := 4096 * (k + 1), usePool := true }
  writeAddrList := []
  instCheckBuffer := some fun _ => 0
  perfBegin := []
  backupReg := some []
  perfEnd := []

theorem plainEnv_ready : plainEnv.Ready where
  alloc := fun _ => rfl
  checkBuffer := rfl
  backup := rfl
  perfBegin_le := by decide
  backup_le := by decide
  perfEnd_le := by decide

/-- A command block of the given size at address `0x1000`. -/
def commandBlock (blockSize : ℕ) : CmdqCommand where
  pVABase := 0x1000
  blockSize := blockSize
  regRequestCount := 0
  regAddresses := 0
  propSize := 0

/-- Memory of conditional jumps: every word of it is refused by the check. -/
def jumpMem : UserMem := fun _ _ => some 0xb0

/-- Memory that shows conditional jumps to the first copy and zeros to every other read. -/
def swappedMem : UserMem := fun pass _ => some (if pass = .copy then 0xb0 else 0)

/-- An invalid word of the user refutes the property. -/
theorem not_valid_of_word {k w : ℕ} (hrun : (cmdqDriverIoctlExec env desc user).toOption.map
      (fun pkt => (toWords pkt.payload)[k]?) = some (some w)) (huser : FromUser env desc k)
    (hbad : cmdqCoreCheckInstrValid env.writeAddrList w = false) :
    ¬FlushedWordsValid env desc user := by
  intro hvalid
  cases hexec : cmdqDriverIoctlExec env desc user with
  | error e =>
    rw [hexec] at hrun
    cases hrun
  | ok pkt =>
    rw [hexec] at hrun
    have hpass := hvalid pkt hexec k w (Option.some.inj hrun) huser
    rw [hbad] at hpass
    cases hpass

/-- A block of two instructions is copied without any check. In a longer block, a word
that changes between the copy and the check gets through. -/
theorem not_flushedWordsValid :
    ¬FlushedWordsValid plainEnv (commandBlock 16) jumpMem ∧
      ¬FlushedWordsValid plainEnv (commandBlock 24) swappedMem := by
  constructor
  · have hrun : (cmdqDriverIoctlExec plainEnv (commandBlock 16) jumpMem).toOption.map
        (fun pkt => (toWords pkt.payload)[0]?) = some (some 0xb0b0b0b0b0b0b0b0) := by decide
    exact not_valid_of_word hrun (Or.inr (by decide)) (by decide)
  · have hrun : (cmdqDriverIoctlExec plainEnv (commandBlock 24) swappedMem).toOption.map
        (fun pkt => (toWords pkt.payload)[0]?) = some (some 0xb0b0b0b0b0b0b0b0) := by decide
    exact not_valid_of_word hrun (Or.inl (by decide)) (by decide)

/-- Memory of zeros, which pass the check. -/
def zeroMem : UserMem := fun _ _ => some 0

/-- A steady block of three conditional jumps is refused by the check, and one of zeros is served
alike to the copy and to the check, and ends with two that pass. -/
theorem flushedWordsValid_steady : FlushedWordsValid plainEnv (commandBlock 24) jumpMem ∧
    FlushedWordsValid plainEnv (commandBlock 24) zeroMem := by
  constructor
  · refine (flushedWordsValid_iff plainEnv_ready (commandBlock 24) jumpMem).mpr
      (Or.inr (Or.inr (Or.inl ?_)))
    intro hpass
    have hword := hpass 0xb0b0b0b0b0b0b0b0 (by decide)
    revert hword
    decide
  · refine (flushedWordsValid_iff plainEnv_ready (commandBlock 24) zeroMem).mpr
      (Or.inr (Or.inr (Or.inr ⟨fun _ _ => Or.inl rfl, fun _ => by decide, ?_⟩)))
    exact fun hrest => absurd (by decide) hrest

/-- The bytes ahead of the last two instructions and these are the whole block, and a flushed packet
holds as many bytes of the user as the block has, beside the kernel's instructions. -/
def CopiesBlock (desc : CmdqCommand) : Prop :=
  desc.copySize + 2 * cmdqInstSize = desc.blockSize ∧
    ∀ (env : FlushEnv) (user : UserMem) (pkt : CmdqPkt), env.Ready →
      cmdqDriverIoctlExec env desc user = .ok pkt → pkt.payload.length =
        8 * env.perfBegin.length + desc.blockSize + 8 * (env.between desc).length

/-- The block of an accepted command is copied exactly if it is not shorter than two
instructions. -/
theorem copiesBlock_iff {desc : CmdqCommand} (haccepted : desc.accepted = true) :
    CopiesBlock desc ↔ 2 * cmdqInstSize ≤ desc.blockSize := by
  constructor
  · rintro ⟨hsize, -⟩
    omega
  · intro hblock
    have hsize : desc.copySize + 2 * cmdqInstSize = desc.blockSize := by
      simp only [CmdqCommand.accepted, CmdqCommand.copySize, u32, Bool.not_eq_true',
        Bool.or_eq_false_iff, decide_eq_false_iff_not] at haccepted ⊢
      omega
    refine ⟨hsize, fun env user pkt henv hok => ?_⟩
    obtain ⟨-, -, -, hpayload⟩ := cmdqDriverIoctlExec_ok henv hok
    simp only [hpayload, packetBytes, List.length_append, length_flatMap_wordBytes, length_bytes]
    omega

/-- A block of three instructions. -/
theorem copiesBlock_threeInstructions :
    (commandBlock 24).accepted = true ∧ CopiesBlock (commandBlock 24) :=
  ⟨by decide, (copiesBlock_iff (by decide)).mpr (by decide)⟩

/-- A block of one instruction is accepted, and the copy ahead of the last two instructions is one
of nearly four gigabytes. -/
theorem not_copiesBlock_oneInstruction :
    (commandBlock 8).accepted = true ∧ (commandBlock 8).copySize = 2 ^ 32 - 8 ∧
      ¬CopiesBlock (commandBlock 8) :=
  ⟨by decide, by decide, fun hcopies => absurd hcopies.1 (by decide)⟩

end Mt8169.Mdp
