import Mt8169.Cmdq.PacketCapacity

/-!
# Functions that append several commands

A write with a mask, an access by a 48-bit address and the end of a packet take several commands,
which are appended one by one. The function returns at the first error, and what was appended before
stays in the packet. Only the backup of a cookie in a secure packet has a command whose error is
ignored.
-/

namespace Mt8169.Cmdq

open ByteMemory MachineInt List

/-- `CMDQ_GET_ARG_B` -/
def argB (value : ℕ) : UInt16 := .ofNat (value / 2 ^ 16)

/-- `CMDQ_GET_ARG_C` and `CMDQ_GET_REG_OFFSET` -/
def argC (value : ℕ) : UInt16 := .ofNat value

/-- `CMDQ_GET_ADDR_HIGH` -/
def addrHigh (addr : ℕ) : ℕ := addr / 2 ^ 16 % 2 ^ 32

/-- `CMDQ_GET_ADDR_LOW`: bit 1 tells that the rest of the address is in a register. -/
def addrLow (addr : ℕ) : UInt16 := .ofNat addr ||| 2

/-- `CMDQ_SPR_FOR_TEMP` -/
def sprForTemp : UInt16 := 0

/-- `struct cmdq_subsys` -/
structure CmdqSubsys where
  base : ℕ
  id : UInt8

/-- `struct cmdq_base`: the places of the table, and how many of them are in use. -/
structure CmdqBase where
  subsys : ℕ → CmdqSubsys
  count : ℕ

/-- `cmdq_subsys_base_to_id`: the table may be `NULL`, the id is an `s8`, and `none` is a negative
result. The high half of the address is lost in the parameter. -/
def cmdqSubsysBaseToId (cltBase : Option CmdqBase) (addr : ℕ) : Option UInt8 := do
  let cltBase ← cltBase
  let i ← (List.range cltBase.count).find? fun i =>
    (cltBase.subsys i).base = addr % 2 ^ 32 / 2 ^ 16 * 2 ^ 16
  if (cltBase.subsys i).id < 128 then some (cltBase.subsys i).id else none

/-- The MASK command that a write or a poll begins with. -/
def maskCommand (mask : UInt32) : List CmdqInstruction :=
  if mask = 0xffffffff then []
  else [⟨argC (~~~mask).toNat, argB (~~~mask).toNat, 0, 0, 0, 0, 0, CmdqCode.mask.val⟩]

/-- The operation code of the write behind it. -/
def writeCode (mask : UInt32) : ℕ :=
  if mask = 0xffffffff then CmdqCode.writeS.val else CmdqCode.writeSWMask.val

/-- `cmdq_pkt_assign_command` -/
def cmdqPktAssignCommand (regIdx : UInt16) (value : ℕ) : CmdqInstruction :=
  ⟨argC value, argB value, regIdx, 0, 0, 0, 1, CmdqCode.logic.val⟩

/-- `cmdq_pkt_write_value` -/
def cmdqPktWriteValue (subsys : UInt8) (offset : UInt16) (value mask : UInt32) :
    List CmdqInstruction :=
  maskCommand mask ++
    [⟨argC value.toNat, argB value.toNat, offset, subsys, 0, 0, 0, writeCode mask⟩]

/-- `cmdq_pkt_store_value` -/
def cmdqPktStoreValue (dstRegIdx dstAddrLow : UInt16) (value mask : UInt32) :
    List CmdqInstruction :=
  cmdqPktWriteValue dstRegIdx.toUInt8 dstAddrLow value mask

/-- `cmdq_pkt_write_value_addr` -/
def cmdqPktWriteValueAddr (addr : ℕ) (value mask : UInt32) : List CmdqInstruction :=
  cmdqPktAssignCommand sprForTemp (addrHigh addr) ::
    cmdqPktStoreValue sprForTemp (addrLow addr) value mask

/-- `cmdq_pkt_write_reg` -/
def cmdqPktWriteReg (subsys : UInt8) (offset srcRegIdx : UInt16) (mask : UInt32) :
    List CmdqInstruction :=
  maskCommand mask ++ [⟨0, srcRegIdx, offset, subsys, 0, 1, 0, writeCode mask⟩]

/-- `cmdq_pkt_store_value_reg` -/
def cmdqPktStoreValueReg (dstRegIdx dstAddrLow srcRegIdx : UInt16) (mask : UInt32) :
    List CmdqInstruction :=
  if dstAddrLow = 0 then maskCommand mask ++ [⟨0, srcRegIdx, dstRegIdx, 0, 0, 1, 1, writeCode mask⟩]
  else cmdqPktWriteReg dstRegIdx.toUInt8 dstAddrLow srcRegIdx mask

/-- `cmdq_pkt_write_reg_addr` -/
def cmdqPktWriteRegAddr (addr : ℕ) (srcRegIdx : UInt16) (mask : UInt32) : List CmdqInstruction :=
  cmdqPktAssignCommand sprForTemp (addrHigh addr) ::
    cmdqPktStoreValueReg sprForTemp (addrLow addr) srcRegIdx mask

/-- `cmdq_pkt_write_indriect`: the offset in the subsys is cut from the base. `CMDQ_GET_ADDR_H` is 0
because it compares a size in bytes with 32. -/
def cmdqPktWriteIndriect (cltBase : Option CmdqBase) (addr : ℕ) (srcRegIdx : UInt16)
    (mask : UInt32) : List CmdqInstruction :=
  match cmdqSubsysBaseToId cltBase addr with
  | some subsys => cmdqPktWriteReg subsys (argC (addr % 2 ^ 32 / 2 ^ 16 * 2 ^ 16)) srcRegIdx mask
  | none => cmdqPktWriteRegAddr addr srcRegIdx mask

/-- `cmdq_pkt_read_reg` -/
def cmdqPktReadReg (subsys : UInt8) (offset dstRegIdx : UInt16) : List CmdqInstruction :=
  [⟨0, offset, dstRegIdx, subsys, 0, 0, 1, CmdqCode.readS.val⟩]

/-- `cmdq_pkt_read_addr` -/
def cmdqPktReadAddr (addr : ℕ) (dstRegIdx : UInt16) : List CmdqInstruction :=
  cmdqPktAssignCommand sprForTemp (addrHigh addr) ::
    cmdqPktReadReg sprForTemp.toUInt8 (addrLow addr) dstRegIdx

/-- `cmdq_pkt_read`: the id is used as an index of the table. -/
def cmdqPktRead (cltBase : Option CmdqBase) (addr : ℕ) (dstRegIdx : UInt16) :
    List CmdqInstruction :=
  match cltBase, cmdqSubsysBaseToId cltBase addr with
  | some cltBase, some subsys =>
    cmdqPktReadReg (cltBase.subsys subsys.toNat).id (argC addr) dstRegIdx
  | _, _ => cmdqPktReadAddr addr dstRegIdx

/-- `cmdq_pkt_mem_move` -/
def cmdqPktMemMove (cltBase : Option CmdqBase) (src dst : ℕ) (swapRegIdx : UInt16) :
    List CmdqInstruction :=
  cmdqPktRead cltBase src swapRegIdx ++ cmdqPktWriteIndriect cltBase dst swapRegIdx 0xffffffff

/-- `cmdq_pkt_poll_reg` -/
def cmdqPktPollReg (value : UInt32) (subsys : UInt8) (offset : UInt16) (mask : UInt32) :
    List CmdqInstruction :=
  maskCommand mask ++ [⟨argC value.toNat, argB value.toNat,
    if mask = 0xffffffff then offset else offset ||| 1, subsys, 0, 0, 0, CmdqCode.poll.val⟩]

/-- `cmdq_pkt_set_event`, for an event below `CMDQ_EVENT_MAX`. -/
def cmdqPktSetEvent (event : UInt16) : CmdqInstruction :=
  ⟨argC (2 ^ 31 + 2 ^ 16), argB (2 ^ 31 + 2 ^ 16), event, 0, 0, 0, 0, CmdqCode.wfe.val⟩

/-- The EOC command. -/
def eocCommand : CmdqInstruction := ⟨argC 1, argB 1, 0, 0, 0, 0, 0, CmdqCode.eoc.val⟩

/-- `CMDQ_EOC_CMD` -/
def cmdqEocCmd : ℕ := (CmdqCode.eoc.val <<< 24) <<< 32 ||| 1

variable (shift : ℕ)

/-- `cmdq_pkt_jump` -/
def cmdqPktJump (offset : ℤ) : CmdqInstruction :=
  let off := u64 (offset / 2 ^ shift)
  ⟨argC off, argB off, 0, 0, 0, 0, 0, CmdqCode.jump.val⟩

/-- `cmdq_pkt_get_va_by_offset`, and the word there. -/
def cmdqPktGetVaByOffset : List CmdqPktBuffer → ℕ → Option ℕ
  | [], _ => none
  | b :: bufs, off =>
    if cmdqCmdBufferSize ≤ off then cmdqPktGetVaByOffset bufs (off - cmdqCmdBufferSize)
    else some (b.get off)

/-- `cmdq_pkt_is_finalized` -/
def cmdqPktIsFinalized (pkt : CmdqPkt) : Bool :=
  if pkt.cmdBufSize < cmdqInstSize * 2 then false
  else cmdqPktGetVaByOffset pkt.buf (pkt.cmdBufSize - cmdqInstSize * 2) == some cmdqEocCmd

/-- A call of `cmdq_pkt_append_command`, and whether its error is returned. -/
structure Append where
  command : CmdqInstruction
  checked : Bool

/-- Calls whose errors are returned. -/
def checked (is : List CmdqInstruction) : List Append := is.map (⟨·, true⟩)

/-- What `cmdq_sec_insert_backup_cookie` reads of the thread of a secure packet, with the address of
the shared memory if there is one. -/
structure CmdqSecThread where
  gcePa : ℕ
  idx : ℕ
  occupied : Bool
  sharedMem : Option ℕ

/-- `cmdq_sec_insert_backup_cookie`: the number of executed packets is read, increased and written
to the shared memory. The error of the increase is ignored. -/
def cmdqSecInsertBackupCookie (thread : CmdqSecThread) : Except Errno (List Append) :=
  match thread.occupied, thread.sharedMem with
  | true, some pa => .ok <|
      checked (cmdqPktRead none ((thread.gcePa + 0x100 + 0x80 * thread.idx + 0x28) % 2 ^ 32) 1) ++
      [⟨⟨1, 1, 1, 1, 0, 1, 1, CmdqCode.logic.val⟩, false⟩] ++
      checked (cmdqPktWriteIndriect none (pa + 0x100 + thread.idx * 4) 1 0xffffffff) ++
      checked [cmdqPktSetEvent 647]
  | _, _ => .error .EFAULT

/-- What `cmdq_pkt_finalize` appends to a packet, which has a thread if it has secure data. The jump
passes to the next instruction. -/
def finalizeCommands (sec : Option CmdqSecThread) (pkt : CmdqPkt) : Except Errno (List Append) :=
  if cmdqPktIsFinalized pkt then .ok []
  else do
    let cookie ← sec.elim (.ok []) cmdqSecInsertBackupCookie
    return cookie ++ checked [eocCommand, cmdqPktJump shift cmdqInstSize]

/-- Append commands one by one and return at the first error that is checked. The `k`th allocates
`mem k` if the packet is full. -/
def appendEach :
    List Append → (ℕ → Option CmdqPktBuffer) → CmdqPkt → Except Errno Unit × CmdqPkt
  | [], _, pkt => (.ok (), pkt)
  | a :: as, mem, pkt =>
    match cmdqPktAppendCommand shift (mem 0) a.command pkt with
    | .error err =>
      if a.checked then (.error err, pkt) else appendEach as (fun k => mem (k + 1)) pkt
    | .ok pkt => appendEach as (fun k => mem (k + 1)) pkt

/-- `cmdq_pkt_finalize` -/
def cmdqPktFinalize (sec : Option CmdqSecThread) (mem : ℕ → Option CmdqPktBuffer) (pkt : CmdqPkt) :
    Except Errno Unit × CmdqPkt :=
  match finalizeCommands shift sec pkt with
  | .error err => (.error err, pkt)
  | .ok as => appendEach shift as mem pkt

/-- The functions that append several commands. -/
inductive Builder where
  | writeValue (subsys : UInt8) (offset : UInt16) (value mask : UInt32)
  | writeValueAddr (addr : ℕ) (value mask : UInt32)
  | readAddr (addr : ℕ) (dstRegIdx : UInt16)
  | memMove (cltBase : Option CmdqBase) (src dst : ℕ) (swapRegIdx : UInt16)
  | pollReg (value : UInt32) (subsys : UInt8) (offset : UInt16) (mask : UInt32)
  | finalize (sec : Option CmdqSecThread)

/-- What a function appends to a packet. -/
def Builder.commands (pkt : CmdqPkt) : Builder → Except Errno (List Append)
  | writeValue subsys offset value mask =>
    .ok (checked (cmdqPktWriteValue subsys offset value mask))
  | writeValueAddr addr value mask => .ok (checked (cmdqPktWriteValueAddr addr value mask))
  | readAddr addr dstRegIdx => .ok (checked (cmdqPktReadAddr addr dstRegIdx))
  | memMove cltBase src dst swapRegIdx =>
    .ok (checked (cmdqPktMemMove cltBase src dst swapRegIdx))
  | pollReg value subsys offset mask => .ok (checked (cmdqPktPollReg value subsys offset mask))
  | finalize sec => finalizeCommands shift sec pkt

/-- A call of the function. -/
def Builder.call (b : Builder) (mem : ℕ → Option CmdqPktBuffer) (pkt : CmdqPkt) :
    Except Errno Unit × CmdqPkt :=
  match b.commands shift pkt with
  | .error err => (.error err, pkt)
  | .ok as => appendEach shift as mem pkt

variable {shift} {pkt : CmdqPkt} {mem : ℕ → Option CmdqPktBuffer} {as : List Append}

/-- No buffer is allocated for calls on a full packet, up to one whose error is checked. -/
def Refused (mem : ℕ → Option CmdqPktBuffer) : List Append → Prop
  | [] => False
  | a :: as => mem 0 = none ∧ (a.checked = true ∨ Refused (fun k => mem (k + 1)) as)

@[simp] theorem length_checked (is : List CmdqInstruction) : (checked is).length = is.length :=
  length_map ..

theorem length_cmdqPktRead_le (cltBase : Option CmdqBase) (addr : ℕ) (dstRegIdx : UInt16) :
    (cmdqPktRead cltBase addr dstRegIdx).length ≤ 2 := by
  unfold cmdqPktRead
  split <;> simp [cmdqPktReadAddr, cmdqPktReadReg]

theorem length_cmdqPktWriteIndriect_le (cltBase : Option CmdqBase) (addr : ℕ)
    (srcRegIdx : UInt16) :
    (cmdqPktWriteIndriect cltBase addr srcRegIdx 0xffffffff).length ≤ 2 := by
  unfold cmdqPktWriteIndriect cmdqPktWriteRegAddr cmdqPktStoreValueReg cmdqPktWriteReg
  split
  · simp [maskCommand]
  · split <;> simp [maskCommand]

theorem length_finalizeCommands_le {sec : Option CmdqSecThread}
    (has : finalizeCommands shift sec pkt = .ok as) : as.length ≤ 8 := by
  have hread := length_cmdqPktRead_le none
  have hwrite := length_cmdqPktWriteIndriect_le none
  unfold finalizeCommands at has
  split_ifs at has
  · cases has
    simp
  · cases sec with
    | none =>
      cases has
      simp
    | some thread =>
      simp only [Option.elim, cmdqSecInsertBackupCookie] at has
      split at has
      · cases has
        grind [length_checked]
      · cases has

theorem Builder.length_commands_le {b : Builder} (has : b.commands shift pkt = .ok as) :
    as.length ≤ 8 := by
  have hmask (mask : UInt32) : (maskCommand mask).length ≤ 1 := by
    unfold maskCommand
    split <;> simp
  cases b with
  | writeValue subsys offset value mask =>
    have := hmask mask
    cases has
    simp only [cmdqPktWriteValue, length_checked, length_append, length_singleton]
    omega
  | writeValueAddr addr value mask =>
    have := hmask mask
    cases has
    simp only [cmdqPktWriteValueAddr, cmdqPktStoreValue, cmdqPktWriteValue, length_checked,
      length_cons, length_append, length_nil]
    omega
  | readAddr addr dstRegIdx =>
    cases has
    simp [cmdqPktReadAddr, cmdqPktReadReg]
  | memMove cltBase src dst swapRegIdx =>
    have hread := length_cmdqPktRead_le cltBase src swapRegIdx
    have hwrite := length_cmdqPktWriteIndriect_le cltBase dst swapRegIdx
    cases has
    simp only [cmdqPktMemMove, length_checked, length_append]
    omega
  | pollReg value subsys offset mask =>
    have := hmask mask
    cases has
    simp only [cmdqPktPollReg, length_checked, length_append, length_singleton]
    omega
  | finalize sec => exact length_finalizeCommands_le has

/-- How appending some commands ends: with success, or, if the calls behind those that fit in the
last buffer are refused, with an error and the commands that fit. -/
inductive Appended (shift : ℕ) (as : List Append) (mem : ℕ → Option CmdqPktBuffer)
    (pkt : CmdqPkt) : Prop where
  | all (pkt' : CmdqPkt) (result : appendEach shift as mem pkt = (.ok (), pkt'))
      (room : ¬Refused (fun k => mem (k + pkt.availBufSize / 8)) (as.drop (pkt.availBufSize / 8)))
  | some (err : Errno) (pkt' : CmdqPkt) (result : appendEach shift as mem pkt = (.error err, pkt'))
      (refused : Refused (fun k => mem (k + pkt.availBufSize / 8))
        (as.drop (pkt.availBufSize / 8)))
      (length : pkt'.payload.length = pkt.payload.length + pkt.availBufSize)
      (same : pkt.availBufSize = 0 → pkt' = pkt)

/-- An error that is not checked leaves the other commands to the packet as it is. -/
theorem Appended.ignored {a : Append} (h : Appended shift as (fun k => mem (k + 1)) pkt)
    (hfull : pkt.availBufSize = 0) (hmem : mem 0 = none) (hchecked : a.checked = false)
    (herr : cmdqPktAppendCommand shift (mem 0) a.command pkt = .error .ENOMEM) :
    Appended shift (a :: as) mem pkt := by
  have hstep : appendEach shift (a :: as) mem pkt =
      appendEach shift as (fun k => mem (k + 1)) pkt := by
    rw [appendEach, herr]
    simp [hchecked]
  cases h with
  | all pkt' result room =>
    refine .all pkt' (hstep.trans result) ?_
    simpa [hfull, Refused, hmem, hchecked] using room
  | some err pkt' result refused length same =>
    refine .some err pkt' (hstep.trans result) ?_ length same
    simpa [hfull, Refused, hmem, hchecked] using refused

/-- A command that fits in the last buffer stands before the others. -/
theorem Appended.cons {a : Append} {pkt' : CmdqPkt}
    (h : Appended shift as (fun k => mem (k + 1)) pkt') (hfull : pkt.availBufSize ≠ 0)
    (hstep : appendEach shift (a :: as) mem pkt =
      appendEach shift as (fun k => mem (k + 1)) pkt')
    (hindex : pkt.availBufSize / 8 = pkt'.availBufSize / 8 + 1)
    (hlength : pkt'.payload.length + pkt'.availBufSize =
      pkt.payload.length + pkt.availBufSize) : Appended shift (a :: as) mem pkt := by
  cases h with
  | all pkt'' result room =>
    refine .all pkt'' (hstep.trans result) ?_
    rw [hindex]
    exact room
  | some err pkt'' result refused length _ =>
    refine .some err pkt'' (hstep.trans result) ?_ (length.trans hlength) (absurd · hfull)
    rw [hindex]
    exact refused

/-- A call appends all its commands, or stops at the first one that is refused. -/
theorem Capacity.appended (h : Capacity pkt) (shift : ℕ) (as : List Append)
    (mem : ℕ → Option CmdqPktBuffer) (hshort : 8 * as.length ≤ pkt.availBufSize + 3824) :
    Appended shift as mem pkt := by
  induction as generalizing pkt mem with
  | nil => exact .all pkt rfl (by simp [Refused])
  | cons a as ih =>
    rw [length_cons] at hshort
    by_cases hfull : pkt.availBufSize = 0
    · cases hmem : mem 0 with
      | none =>
        have herr : cmdqPktAppendCommand shift (mem 0) a.command pkt = .error .ENOMEM := by
          rw [cmdqPktAppendCommand, pktAppendWord, cmdqTaskCheckAvailable, if_pos hfull, hmem]
          rfl
        cases hchecked : a.checked with
        | true =>
          refine .some .ENOMEM pkt ?_ (by simp [hfull, Refused, hmem, hchecked])
            (by rw [hfull]; rfl) fun _ => rfl
          rw [appendEach, herr]
          simp [hchecked]
        | false => exact (ih h _ (by omega)).ignored hfull hmem hchecked herr
      | some buf =>
        obtain ⟨pkt', hok, hcap, havail⟩ :=
          h.extend hfull shift buf (cmdqPktInstrEncoder a.command)
        have hrest : as.drop (pkt'.availBufSize / 8) = [] := drop_eq_nil_of_le (by omega)
        have hstep : appendEach shift (a :: as) mem pkt =
            appendEach shift as (fun k => mem (k + 1)) pkt' := by
          rw [appendEach, cmdqPktAppendCommand, hmem, hok]
        cases ih hcap (fun k => mem (k + 1)) (by omega) with
        | all pkt'' result _ =>
          exact .all pkt'' (hstep.trans result) (by simp [hfull, Refused, hmem])
        | some err pkt'' _ refused _ _ => simp [hrest, Refused] at refused
    · obtain ⟨pkt', hok, hcap, havail, -, hpayload⟩ :=
        h.append hfull shift (mem 0) (cmdqPktInstrEncoder a.command)
      obtain ⟨k, hk⟩ := h.dvd
      rw [cmdqInstSize_eq] at hk
      refine (ih hcap (fun k => mem (k + 1)) (by omega)).cons hfull ?_ (by omega) ?_
      · rw [appendEach, cmdqPktAppendCommand, hok]
      · rw [hpayload, length_append, length_wordBytes]
        omega

/-- The calls that find a packet full are not refused exactly if there are none of them, or a buffer
is allocated for the first one. -/
theorem not_refused_checked_iff (mem : ℕ → Option CmdqPktBuffer) (is : List CmdqInstruction)
    (n : ℕ) :
    ¬Refused (fun k => mem (k + n)) ((checked is).drop n) ↔ is.length ≤ n ∨ mem n ≠ none := by
  rcases Nat.lt_or_ge n is.length with hlt | hge
  · have hcons : (checked is).drop n = ⟨is[n], true⟩ :: (checked is).drop (n + 1) := by
      rw [drop_eq_getElem_cons (by simpa using hlt)]
      simp [checked]
    rw [hcons]
    simp [Refused, Nat.not_le.mpr hlt]
  · rw [drop_eq_nil_of_le (by simpa using hge)]
    simp [Refused, hge]

/-- A call that returns an error leaves the commands of the packet as they were exactly if it
appends nothing, or the packet is full, or the calls that find it full are not refused: there are
none, or a buffer is allocated before the error of one of them is checked. -/
theorem Builder.call_unchanged_iff (b : Builder) (h : Capacity pkt) :
    (∀ err, (b.call shift mem pkt).1 = .error err →
        (b.call shift mem pkt).2.payload = pkt.payload) ↔
      ∀ as, b.commands shift pkt = .ok as → pkt.availBufSize = 0 ∨
        ¬Refused (fun k => mem (k + pkt.availBufSize / 8)) (as.drop (pkt.availBufSize / 8)) := by
  unfold Builder.call
  cases has : b.commands shift pkt with
  | error err => simp
  | ok as =>
    have hlen := Builder.length_commands_le has
    simp only [Except.ok.injEq, forall_eq']
    cases h.appended shift as mem (by omega) with
    | all pkt' result room =>
      rw [result]
      refine iff_of_true ?_ (Or.inr room)
      intro err herr
      cases herr
    | some err pkt' result refused length same =>
      rw [result]
      constructor
      · intro hclean
        rw [hclean err rfl] at length
        exact Or.inl (by omega)
      · rintro (hzero | hroom)
        · exact fun _ _ => by rw [same hzero]
        · exact absurd refused hroom

/-- A packet with one buffer and room for some commands. -/
def almostFull (room : ℕ) : CmdqPkt :=
  { cmdqPktCreate with
    buf := [⟨fun i => if i % 8 = 7 then 0x20 else 0, 0x1000, false⟩]
    availBufSize := 8 * room
    cmdBufSize := 3840 - 8 * room
    bufSize := 3840 }

theorem capacity_almostFull (room : ℕ) (hroom : room ≤ 480) : Capacity (almostFull room) where
  dvd := ⟨room, rfl⟩
  le := show 8 * room ≤ 3840 by omega
  empty := by simp [almostFull]

/-- A secure thread with its shared memory. -/
def secureThread : CmdqSecThread := ⟨0x10228000, 5, true, some 0x40000000⟩

/-- A write without a mask does not change the packet when it fails, and the end of a secure packet
does not if only the allocation for the ignored command fails. -/
theorem call_unchanged_almostFull :
    Capacity (almostFull 1) ∧ Capacity (almostFull 2) ∧
    (∀ err, ((Builder.writeValue 0 0 0 0xffffffff).call 3 (fun _ => none) (almostFull 1)).1 =
      .error err → ((Builder.writeValue 0 0 0 0xffffffff).call 3 (fun _ => none)
        (almostFull 1)).2.payload = (almostFull 1).payload) ∧
    ∀ mem, mem 3 ≠ none → ∀ err, ((Builder.finalize (some secureThread)).call 3 mem
      (almostFull 2)).1 = .error err → ((Builder.finalize (some secureThread)).call 3 mem
        (almostFull 2)).2.payload = (almostFull 2).payload := by
  have hone := capacity_almostFull 1 (by decide)
  have htwo := capacity_almostFull 2 (by decide)
  refine ⟨hone, htwo, ?_, fun mem hmem => ?_⟩
  · refine ((Builder.writeValue 0 0 0 0xffffffff).call_unchanged_iff hone).mpr ?_
    rintro _ ⟨⟩
    exact Or.inr ((not_refused_checked_iff (fun _ => none)
      (cmdqPktWriteValue 0 0 0 0xffffffff) 1).mpr (Or.inl (by decide)))
  · refine ((Builder.finalize (some secureThread)).call_unchanged_iff htwo).mpr ?_
    rintro _ ⟨⟩
    refine Or.inr fun hrefused => ?_
    obtain ⟨-, hchecked | ⟨hnone, -⟩⟩ := hrefused
    · cases hchecked
    · exact hmem hnone

/-- A write with a mask leaves its MASK command. -/
theorem not_call_unchanged_almostFull :
    ∃ err, ((Builder.writeValue 0 0 0 1).call 3 (fun _ => none) (almostFull 1)).1 = .error err ∧
      ((Builder.writeValue 0 0 0 1).call 3 (fun _ => none) (almostFull 1)).2.payload ≠
        (almostFull 1).payload := by
  have hone := capacity_almostFull 1 (by decide)
  cases hone.appended 3 (checked (cmdqPktWriteValue 0 0 0 1)) (fun _ => none) (by decide) with
  | all pkt' _ room =>
    exact absurd ((not_refused_checked_iff (fun _ => none) _ 1).mp room) (by decide)
  | some err pkt' result _ length _ =>
    change ∃ err, (appendEach _ _ _ _).1 = _ ∧ (appendEach _ _ _ _).2.payload ≠ _
    rw [result]
    refine ⟨err, rfl, fun hsame => ?_⟩
    have hroom : (almostFull 1).availBufSize = 8 := rfl
    rw [hsame] at length
    omega

end Mt8169.Cmdq
