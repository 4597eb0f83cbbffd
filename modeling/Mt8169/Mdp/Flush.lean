import Mt8169.Cmdq.Packet

/-!
# Flushing user commands

The exec ioctls hand a user buffer of GCE instructions to `cmdq_mdp_flush_async`, which reads it
three times: all but the last two instructions are copied into the packet, the same range is read
again and checked, and then the last two are copied. The definitions follow `mdp_driver.c`,
`mdp_common.c` and `cmdq_helper_ext.c`.
-/

namespace Mt8169.Mdp

open ByteMemory MachineInt Cmdq

/-- The general-purpose registers of `enum cmdq_gpr_reg` that user commands may name. -/
inductive CmdqDataReg where
  | jpeg | jpegDst | pqColor | pqColorDst | sharpness0 | sharpness0Dst
  | sharpness1 | sharpness1Dst | debug | debugDst
  deriving DecidableEq, Repr

/-- The number of a register. -/
def CmdqDataReg.val : CmdqDataReg → ℕ
  | jpeg => 0x00
  | jpegDst => 0x11
  | pqColor => 0x04
  | pqColorDst => 0x13
  | sharpness0 => 0x05
  | sharpness0Dst => 0x14
  | sharpness1 => 0x0a
  | sharpness1Dst => 0x16
  | debug => 0x0b
  | debugDst => 0x17

/-- `cmdq_core_check_gpr_valid`. With `val` unset the register number is in the
upper half of the argument. -/
def cmdqCoreCheckGprValid (gpr : ℕ) (val : Bool) : Bool :=
  if val then
    gpr ∈ [CmdqDataReg.jpeg, .pqColor, .sharpness0, .sharpness1, .debug].map CmdqDataReg.val
  else
    gpr >>> 16 ∈ [CmdqDataReg.jpegDst, .pqColorDst, .sharpness0, .sharpness0Dst, .sharpness1Dst,
      .debugDst].map CmdqDataReg.val

/-- `struct WriteAddrStruct`: a buffer handed out to user space. -/
structure WriteAddr where
  count : ℕ
  pa : ℕ

/-- `cmdq_core_check_dma_addr_valid`: below DRAM, or inside a buffer handed out. -/
def cmdqCoreCheckDmaAddrValid (writeAddrList : List WriteAddr) (pa : ℕ) : Bool :=
  pa < 0x20000000 || writeAddrList.any fun waddr => u64 (pa - waddr.pa) < u32 (waddr.count * 4)

/-- `cmdq_core_check_instr_valid`, in the configuration without `CMDQ_MDP_ENABLE_SPR`. -/
def cmdqCoreCheckInstrValid (writeAddrList : List WriteAddr) (instr : ℕ) : Bool :=
  let op := instr >>> 56
  let option := instr >>> 53 &&& 0x7
  let argA := instr >>> 32 &&& 0x1FFFFF
  let argB := instr &&& 0xFFFFFFFF
  if op = CmdqCode.write.val then
    option == 0 ||
    option == 0x2 && cmdqCoreCheckGprValid argB true ||
    option == 0x4 && cmdqCoreCheckGprValid argA false ||
    option == 0x6 && cmdqCoreCheckGprValid argA false && cmdqCoreCheckGprValid argB true
  else if op = CmdqCode.read.val then
    option == 0x2 && cmdqCoreCheckGprValid argB true ||
    option == 0x6 && cmdqCoreCheckGprValid argA false && cmdqCoreCheckGprValid argB true
  else if op = CmdqCode.move.val then
    option == 0 && argA == 0 ||
    option == 0x4 && cmdqCoreCheckGprValid argA false &&
      cmdqCoreCheckDmaAddrValid writeAddrList argB
  else if op = CmdqCode.jump.val then
    argA == 0 && argB == 0x8
  else
    op ∉ [CmdqCode.readS, .writeS, .writeSWMask, .logic, .jumpCAbsolute, .jumpCRelative].map
      CmdqCode.val

/-- The three passes in which a flush reads the user buffer. -/
inductive UserRead where
  | copy | check | tail
  deriving DecidableEq, Repr

/-- A behaviour of the user memory: the byte that each pass gets at an address, or
`none` where the read faults. No pass reads an address twice, so this lets every
`copy_from_user` see different bytes. -/
abbrev UserMem := UserRead → ℕ → Option UInt8

variable (user : UserMem) (pass : UserRead) (addr : ℕ)

/-- The bytes a pass gets, with zero in place of a byte that faults. -/
def servedByte : UInt8 := (user pass addr).getD 0

/-- Whether a pass can read the whole range. -/
def readable (size : ℕ) : Bool :=
  (List.range size).all fun i => (user pass (addr + i)).isSome

/-- `copy_from_user`: all the bytes of the range, or failure. -/
def copyFromUser (size : ℕ) : Option (List UInt8) :=
  if readable user pass addr size then some (bytes (fun i => servedByte user pass (addr + i)) size)
  else none

/-- `struct cmdqCommandStruct`, with the fields the flush of its commands reads. -/
structure CmdqCommand where
  pVABase : ℕ
  blockSize : ℕ
  regRequestCount : ℕ
  regAddresses : ℕ
  propSize : ℕ

/-- The kernel side of a flush. `alloc k` is the outcome of extending a packet of
`k` buffers, `instCheckBuffer` the bytes left in the check buffer or `none` when it
cannot be allocated. The kernel's own instructions are arbitrary words: those
`cmdq_task_reset` and `cmdq_pkt_perf_end` add when profiling, and those of
`cmdq_task_append_backup_reg`, which fails when it has no memory. -/
structure FlushEnv where
  gceShiftBit : ℕ
  alloc : ℕ → Option CmdqPktBuffer
  writeAddrList : List WriteAddr
  instCheckBuffer : Option Mem
  perfBegin : List ℕ
  backupReg : Option (List ℕ)
  perfEnd : List ℕ

variable (env : FlushEnv) (desc : CmdqCommand) (user : UserMem) (pass : UserRead)

/-- Append kernel instructions. A failing append is ignored, as its callers do. -/
def appendKernelWords (ws : List ℕ) (pkt : CmdqPkt) : CmdqPkt :=
  ws.foldl (fun pkt w =>
    match pktAppendWord env.gceShiftBit (env.alloc pkt.buf.length) w pkt with
    | .ok pkt' => pkt'
    | .error _ => pkt) pkt

/-- `CmdqPktBuffer` with a block of bytes copied to the given offset. -/
def copyToBuffer (off : ℕ) (src : List UInt8) (b : CmdqPktBuffer) : CmdqPktBuffer :=
  { b with vaBase := copyIn b.vaBase off src }

/-- The loop of `cmdq_pkt_copy_cmd`. Every iteration copies at least one byte, so
the number of bytes bounds the iterations. -/
def copyCmdLoop (env : FlushEnv) (user : UserMem) (pass : UserRead) (src size : ℕ) :
    ℕ → ℕ → CmdqPkt → Except Errno CmdqPkt
  | 0, _, pkt => .ok pkt
  | fuel + 1, remaindCmdSize, pkt => do
    if remaindCmdSize = 0 then return pkt
    let pkt ← cmdqTaskCheckAvailable env.gceShiftBit (env.alloc pkt.buf.length) pkt
    let copySize := if pkt.availBufSize > remaindCmdSize then remaindCmdSize else pkt.availBufSize
    match copyFromUser user pass (src + (size - remaindCmdSize)) copySize with
    | none => .error .ENOMEM
    | some bs => copyCmdLoop env user pass src size fuel (remaindCmdSize - copySize) { pkt with
        buf := pkt.buf.modifyLast (copyToBuffer (appendOffset pkt.availBufSize) bs)
        availBufSize := u64 (pkt.availBufSize - copySize)
        cmdBufSize := u64 (pkt.cmdBufSize + copySize) }

/-- `cmdq_pkt_copy_cmd`, copying from user space. -/
def cmdqPktCopyCmd (src size : ℕ) (pkt : CmdqPkt) : Except Errno CmdqPkt :=
  copyCmdLoop env user pass src size size size pkt

/-- The loop of `cmdq_core_check_user_valid`. The check buffer is not cleared between
rounds, and a last word that is only partly filled is checked with what is in it. -/
def checkUserLoop (env : FlushEnv) (user : UserMem) : ℕ → ℕ → ℕ → Mem → Bool
  | 0, _, _, _ => true
  | fuel + 1, curSrc, remainSize, buffer =>
    if remainSize = 0 then true
    else
      let copySize := if remainSize > cmdqCmdBufferSize then cmdqCmdBufferSize else remainSize
      match copyFromUser user .check curSrc copySize with
      | none => false
      | some bs =>
        let buffer := copyIn buffer 0 bs
        (words buffer ((copySize + 7) / 8)).all (cmdqCoreCheckInstrValid env.writeAddrList) &&
          checkUserLoop env user fuel (curSrc + copySize) (remainSize - copySize) buffer

/-- `cmdq_core_check_user_valid`. -/
def cmdqCoreCheckUserValid (src size : ℕ) : Bool :=
  match env.instCheckBuffer with
  | none => false
  | some buffer => checkUserLoop env user size src size buffer

/-- The number of bytes ahead of the last two instructions, in the 32-bit
arithmetic of the source: a block shorter than them wraps around. -/
def CmdqCommand.copySize : ℕ := u32 (desc.blockSize - 2 * cmdqInstSize)

/-- Whether the registers of the command are backed up. -/
def CmdqCommand.wantsBackup : Bool :=
  desc.regRequestCount ≠ 0 ∧ desc.regRequestCount ≤ 4096 ∧ desc.regAddresses ≠ 0

/-- The first copy of `cmdq_mdp_flush_async`: all but the last two instructions. -/
def copyAllButLast (pkt : CmdqPkt) : Except Errno CmdqPkt :=
  if desc.copySize > 0 then cmdqPktCopyCmd env user .copy desc.pVABase desc.copySize pkt
  else .ok pkt

/-- The register backup of `cmdq_mdp_flush_async`, if the command asks for one. -/
def appendBackupReg (pkt : CmdqPkt) : Except Errno CmdqPkt :=
  if desc.wantsBackup then
    match env.backupReg with
    | none => .error .ENOMEM
    | some ws => .ok (appendKernelWords env ws pkt)
  else .ok pkt

/-- `cmdq_mdp_flush_async` with `user_space` set, up to the hand-over of the packet. -/
def cmdqMdpFlushAsync : Except Errno CmdqPkt := do
  let pkt ← copyAllButLast env desc user (appendKernelWords env env.perfBegin cmdqPktCreate)
  if cmdqCoreCheckUserValid env user desc.pVABase desc.copySize then
    let pkt ← appendBackupReg env desc pkt
    cmdqPktCopyCmd env user .tail (desc.pVABase + desc.copySize) (2 * cmdqInstSize)
      (appendKernelWords env env.perfEnd pkt)
  else throw .EFAULT

/-- The descriptors that the exec ioctls let through. -/
def CmdqCommand.accepted : Bool :=
  !(desc.regRequestCount > 4096 || desc.blockSize == 0 || desc.blockSize > 0x80000000 ||
    desc.propSize > 1024)

/-- `cmdq_driver_ioctl_exec_command` and `cmdq_driver_ioctl_async_job_exec`: the test
of the descriptor and the flush of its commands. -/
def cmdqDriverIoctlExec : Except Errno CmdqPkt :=
  if desc.accepted then cmdqMdpFlushAsync env desc user else .error .EINVAL

end Mt8169.Mdp
