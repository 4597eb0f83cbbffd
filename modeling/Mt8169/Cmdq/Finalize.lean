import Mt8169.Cmdq.Builders
import Mt8169.Cmdq.Fetch

/-!
# The end of a packet

`cmdq_pkt_is_finalized` looks for an EOC one instruction before the last one. It counts whole
buffers and so relies on both being in the last buffer. They are, because a full packet hands its
last instruction to the buffer that is added.
-/

namespace Mt8169.Cmdq

open ByteMemory MachineInt List

/-- `cmdq_pkt_jump_addr` -/
def cmdqPktJumpAddr (shift addr : ℕ) : CmdqInstruction :=
  ⟨argC (addr / 2 ^ shift), argB (addr / 2 ^ shift), 1, 0, 0, 0, 0, CmdqCode.jump.val⟩

/-- `cmdq_pkt_finalize_loop`: the jump leads to the first buffer. -/
def cmdqPktFinalizeLoop (shift : ℕ) (mem : ℕ → Option CmdqPktBuffer) (pkt : CmdqPkt) :
    Except Errno Unit × CmdqPkt :=
  if cmdqPktIsFinalized pkt then (.ok (), pkt)
  else
    match cmdqPktAppendCommand shift (mem 0) eocCommand pkt with
    | .error err => (.error err, pkt)
    | .ok pkt =>
      let startPa := u32 (pkt.buf.head?.elim 0 (·.paBase))
      match cmdqPktAppendCommand shift (mem 1) (cmdqPktJumpAddr shift startPa) pkt with
      | .error err => (.error err, pkt)
      | .ok pkt => (.ok (), { pkt with loop := true })

/-- The packet after a call of `cmdq_pkt_append_command`, which fails if it gets no buffer. -/
def appendCall (shift : ℕ) (pkt : CmdqPkt) (call : Option CmdqPktBuffer × CmdqInstruction) :
    CmdqPkt := (cmdqPktAppendCommand shift call.1 call.2 pkt).toOption.getD pkt

variable {shift : ℕ} {pkt pkt' : CmdqPkt} {ws : List ℕ} {i : CmdqInstruction}

theorem appendCommands_concat {calls : List (CmdqPktBuffer × CmdqInstruction)}
    {mem : Option CmdqPktBuffer} (hrun : appendCommands shift calls cmdqPktCreate = .ok pkt)
    (hok : cmdqPktAppendCommand shift mem i pkt = .ok pkt') :
    (pkt.buf.map (·.paBase)).Sublist (pkt'.buf.map (·.paBase)) ∧
      ∃ buf, appendCommands shift (calls ++ [(buf, i)]) cmdqPktCreate = .ok pkt' := by
  -- a call that allocates nothing does the same with any buffer
  obtain ⟨buf, hbuf⟩ : ∃ buf, cmdqPktAppendCommand shift (some buf) i pkt = .ok pkt' := by
    cases mem with
    | some buf => exact ⟨buf, hok⟩
    | none =>
      refine ⟨zeroedBuffer 0, ?_⟩
      unfold cmdqPktAppendCommand pktAppendWord cmdqTaskCheckAvailable at hok ⊢
      split_ifs at hok ⊢
      · cases hok
      · exact hok
  refine ⟨sublist_bases hbuf, buf, ?_⟩
  rw [appendCommands] at hrun ⊢
  rw [foldlM_append, hrun]
  simpa [bind, Except.bind, pure, Except.pure] using congrArg (Except.bind · Except.ok) hbuf

/-- Failed appends do not matter for the contents. -/
theorem exists_appendCommands {calls : List (Option CmdqPktBuffer × CmdqInstruction)}
    (hcodes : ∀ call ∈ calls, call.2.code % 2 ^ 8 ≠ CmdqCode.eoc.val) (shift : ℕ) :
    ∃ calls' : List (CmdqPktBuffer × CmdqInstruction),
      (∀ call ∈ calls', call.2.code % 2 ^ 8 ≠ CmdqCode.eoc.val) ∧
      appendCommands shift calls' cmdqPktCreate =
        .ok (calls.foldl (appendCall shift) cmdqPktCreate) := by
  induction calls using reverseRecOn with
  | nil => exact ⟨[], by simp, rfl⟩
  | append_singleton calls call ih =>
    obtain ⟨calls', hcodes', hrun⟩ := ih fun c hc => hcodes c (mem_append_left _ hc)
    rw [foldl_concat]
    generalize calls.foldl (appendCall shift) cmdqPktCreate = pkt at hrun
    unfold appendCall
    cases hok : cmdqPktAppendCommand shift call.1 call.2 pkt with
    | error err => exact ⟨calls', hcodes', hrun⟩
    | ok pkt' =>
      obtain ⟨-, buf, hrun'⟩ := appendCommands_concat hrun hok
      refine ⟨_, fun c hc => ?_, hrun'⟩
      rcases mem_append.mp hc with hc | hc
      · exact hcodes' c hc
      · obtain rfl := mem_singleton.mp hc
        exact hcodes call (by simp)

theorem cmdqPktGetVaByOffset_concat (init : List CmdqPktBuffer) (b : CmdqPktBuffer) {off : ℕ}
    (hoff : off < 3840) :
    cmdqPktGetVaByOffset (init ++ [b]) (init.length * 3840 + off) = some (b.get off) := by
  induction init with
  | nil => simp [cmdqPktGetVaByOffset, Nat.not_le.mpr hoff]
  | cons b' init ih =>
    have hrest : (init.length + 1) * 3840 + off - 3840 = init.length * 3840 + off := by omega
    rw [length_cons, cons_append, cmdqPktGetVaByOffset, cmdqCmdBufferSize_eq, hrest, ih,
      if_pos (by omega)]

theorem PktRep.lastWords (h : PktRep shift pkt ws)
    (htail : pkt.buf.length ≤ 1 ∨ pkt.availBufSize ≤ 3824) (hsize : 16 ≤ pkt.cmdBufSize) :
    ∃ front w w', ws = front ++ [w, w'] ∧
      cmdqPktGetVaByOffset pkt.buf (pkt.cmdBufSize - 16) = some w := by
  have hadd := h.size_add
  have hle := h.capacity.le
  obtain ⟨k, hk⟩ : 8 ∣ pkt.availBufSize := h.capacity.dvd
  have hlen := h.bufSize_eq
  rw [cmdqCmdBufferSize_eq] at hle hlen
  obtain hnil | ⟨init, b, hbuf⟩ := eq_nil_or_concat' pkt.buf
  · rw [hnil, length_nil] at hlen
    omega
  rw [hbuf, length_append, length_singleton] at hlen htail
  obtain ⟨m, hm⟩ : ∃ m, 3840 - pkt.availBufSize = 8 * (m + 2) := ⟨478 - k, by omega⟩
  refine ⟨toWords (init.flatMap fun b => bytes b.vaBase payloadSize) ++ words b.vaBase m,
    b.get (8 * m), b.get (8 * (m + 1)), ?_, ?_⟩
  · have hwhole : 8 ∣ (init.flatMap fun b => bytes b.vaBase payloadSize).length := by
      rw [length_flatMap]
      simp
      omega
    rw [← h.payload_eq, CmdqPkt.payload, hbuf, payloadBytes_concat, toWords_append hwhole,
      toWords_bytes, appendOffset_eq h.capacity.le, cmdqCmdBufferSize_eq, hm,
      Nat.mul_div_cancel_left _ (by decide)]
    simp [words, range_succ, CmdqPktBuffer.get]
  · have hoff : pkt.cmdBufSize - 16 = init.length * 3840 + 8 * m := by omega
    rw [hbuf, hoff, cmdqPktGetVaByOffset_concat init b (by omega)]

theorem PktRep.length_le (h : PktRep shift pkt ws) : 8 * ws.length ≤ pkt.cmdBufSize := by
  have hadd := h.size_add
  have hle := h.capacity.le
  rw [h.bufSize_eq, cmdqCmdBufferSize_eq] at hadd
  rw [cmdqCmdBufferSize_eq] at hle
  have hlen : ws.length = pkt.payload.length / 8 := by
    rw [← h.payload_eq]
    simp [toWords, words]
  rw [CmdqPkt.payload] at hlen
  obtain hnil | ⟨init, b, hbuf⟩ := eq_nil_or_concat' pkt.buf
  · rw [hnil] at hlen
    exact le_of_eq_of_le (by simp [hlen, payloadBytes]) (Nat.zero_le _)
  · rw [hbuf, length_payloadBytes_concat, appendOffset_eq h.capacity.le, payloadSize_eq,
      cmdqCmdBufferSize_eq] at hlen
    rw [hbuf, length_append, length_singleton] at hadd
    omega

/-- The test looks at the word before the last one. -/
theorem PktRep.isFinalized_iff (h : PktRep shift pkt ws)
    (htail : pkt.buf.length ≤ 1 ∨ pkt.availBufSize ≤ 3824) :
    cmdqPktIsFinalized pkt = true ↔ ∃ front w, ws = front ++ [cmdqEocCmd, w] := by
  have hlen := h.length_le
  unfold cmdqPktIsFinalized
  rw [cmdqInstSize_eq]
  split_ifs with hsmall
  · refine iff_of_false not_false ?_
    rintro ⟨front, w, rfl⟩
    rw [length_append] at hlen
    simp at hlen
    omega
  · obtain ⟨front, w, w', hws, hva⟩ := h.lastWords htail (by omega)
    rw [hva, beq_iff_eq, Option.some.injEq]
    constructor
    · rintro rfl
      exact ⟨front, w', hws⟩
    · rintro ⟨front', w'', hws'⟩
      obtain ⟨-, htwo⟩ := append_inj' (hws.symm.trans hws') rfl
      exact (cons.inj htwo).1

/-- The call finds the packet finalized, or appends two commands. -/
theorem cmdqPktFinalize_cases {mem : ℕ → Option CmdqPktBuffer}
    (hok : cmdqPktFinalize shift none mem pkt = (.ok (), pkt')) :
    cmdqPktIsFinalized pkt = true ∧ pkt' = pkt ∨
      ∃ mid, cmdqPktAppendCommand shift (mem 0) eocCommand pkt = .ok mid ∧
        cmdqPktAppendCommand shift (mem 1) (cmdqPktJump shift cmdqInstSize) mid = .ok pkt' := by
  unfold cmdqPktFinalize finalizeCommands at hok
  split_ifs at hok with hfin
  · cases hok
    exact Or.inl ⟨hfin, rfl⟩
  · right
    change appendEach shift (checked [eocCommand, cmdqPktJump shift cmdqInstSize]) mem pkt = _
      at hok
    simp only [checked, map_cons, map_nil, appendEach, if_true] at hok
    split at hok
    · cases hok
    · rename_i mid hmid
      split at hok
      · cases hok
      · rename_i last hlast
        cases hok
        exact ⟨mid, hmid, hlast⟩

/-- A finalized packet without secure data is executed as before, and then an EOC and a jump.
Finalizing again changes nothing. -/
theorem cmdqPktFinalize_once {calls : List (Option CmdqPktBuffer × CmdqInstruction)}
    (hcodes : ∀ call ∈ calls, call.2.code % 2 ^ 8 ≠ CmdqCode.eoc.val)
    {mem : ℕ → Option CmdqPktBuffer} (hpkt : calls.foldl (appendCall shift) cmdqPktCreate = pkt)
    (hok : cmdqPktFinalize shift none mem pkt = (.ok (), pkt'))
    (haddr : AddressesOk shift (pkt'.buf.map (·.paBase))) :
    (∃ ws, (∀ fuel, pkt.cmdBufSize / 8 < fuel → fetchPkt shift fuel pkt = some ws) ∧
      ∀ fuel, pkt'.cmdBufSize / 8 < fuel → fetchPkt shift fuel pkt' =
        some (ws ++ [cmdqEocCmd, cmdqPktInstrEncoder (cmdqPktJump shift cmdqInstSize)])) ∧
    ∀ mem, cmdqPktFinalize shift none mem pkt' = (.ok (), pkt') ∧
      cmdqPktFinalizeLoop shift mem pkt' = (.ok (), pkt') := by
  obtain ⟨calls', hcodes', hrun⟩ := exists_appendCommands hcodes shift
  rw [hpkt] at hrun
  obtain ⟨_, hrun', hrep⟩ := appendCommands_rep shift calls'
  obtain rfl := Except.ok.inj (hrun.symm.trans hrun')
  rcases cmdqPktFinalize_cases hok with ⟨hfin, rfl⟩ | ⟨mid, hmid, hend⟩
  · -- the EOC would be one of the commands
    obtain ⟨h, htail⟩ := hrep haddr
    obtain ⟨front, w, hws⟩ := (h.isFinalized_iff htail).mp hfin
    have hmem : cmdqEocCmd ∈ calls'.map fun call => cmdqPktInstrEncoder call.2 := by simp [hws]
    obtain ⟨call, hcall, heoc⟩ := mem_map.mp hmem
    have hcode := hcodes' call hcall
    rw [← cmdqPktInstrEncoder_div, heoc] at hcode
    exact absurd rfl hcode
  · obtain ⟨hsub, buf, hrunMid⟩ := appendCommands_concat hrun hmid
    obtain ⟨hsub', buf', hrunEnd⟩ := appendCommands_concat hrunMid hend
    obtain ⟨_, hrunEnd', hrepEnd⟩ := appendCommands_rep shift
      (calls' ++ [(buf, eocCommand)] ++ [(buf', cmdqPktJump shift cmdqInstSize)])
    obtain rfl := Except.ok.inj (hrunEnd.symm.trans hrunEnd')
    obtain ⟨h', htail'⟩ := hrepEnd haddr
    have haddrPkt := haddr.sublist (hsub.trans hsub')
    have heoc : cmdqPktInstrEncoder eocCommand = cmdqEocCmd := by decide
    rw [map_append, map_append, append_assoc] at h'
    simp only [map_cons, map_nil, singleton_append, heoc] at h'
    refine ⟨⟨_, fun fuel hfuel => (hrep haddrPkt).1.fetchPkt_eq haddrPkt hfuel,
      fun fuel hfuel => h'.fetchPkt_eq haddr hfuel⟩, fun mem => ?_⟩
    have hfin := (h'.isFinalized_iff htail').mpr ⟨_, _, rfl⟩
    simp [cmdqPktFinalize, finalizeCommands, cmdqPktFinalizeLoop, hfin, appendEach]

/-- A packet with one command and its end. -/
def shortPkt : CmdqPkt :=
  (cmdqPktFinalize 3 none (fun _ => none) (appendCall 3 cmdqPktCreate
    (some (zeroedBuffer 0x1000), writeInstruction 5 1))).2

/-- A packet with an end is left alone. -/
theorem cmdqPktFinalize_once_shortPkt : AddressesOk 3 (shortPkt.buf.map (·.paBase)) ∧
    ∀ mem, cmdqPktFinalize 3 none mem shortPkt = (.ok (), shortPkt) := by
  have haddr : AddressesOk 3 (shortPkt.buf.map (·.paBase)) := by
    have hbases : shortPkt.buf.map (·.paBase) = [0x1000] := by decide
    rw [hbases]
    exact ⟨by decide, by decide, by decide⟩
  have hok : cmdqPktFinalize 3 none (fun _ => none) (appendCall 3 cmdqPktCreate
      (some (zeroedBuffer 0x1000), writeInstruction 5 1)) = (.ok (), shortPkt) := rfl
  have hcodes : ∀ call ∈ [(some (zeroedBuffer 0x1000), writeInstruction 5 1)],
      call.2.code % 2 ^ 8 ≠ CmdqCode.eoc.val := by simp [writeInstruction, CmdqCode.val]
  exact ⟨haddr, fun mem => ((cmdqPktFinalize_once hcodes rfl hok haddr).2 mem).1⟩

end Mt8169.Cmdq
