import Mt8169.Kernel
import Mt8169.Lib.ByteMemory
import Mt8169.Lib.MachineInt
import Mathlib.Data.List.ModifyLast

/-!
# Command packets

A GCE packet is a list of command buffers. Instructions are appended to the last one; when it is
full another is allocated, the last instruction moves to its head and an absolute jump takes the
freed slot. The definitions follow `mtk-cmdq-helper-ext.c`. A DMA allocation is an argument, `none`
if it fails.
-/

namespace Mt8169.Cmdq

open ByteMemory MachineInt

/-- `CMDQ_INST_SIZE`: an instruction has 64 bits. -/
def cmdqInstSize : ℕ := 8

/-- `CMDQ_BUF_ALLOC_SIZE`: one page per command buffer. -/
def cmdqBufAllocSize : ℕ := 4096

/-- `CMDQ_CMD_BUFFER_SIZE`: the part of a buffer that holds commands. -/
def cmdqCmdBufferSize : ℕ := cmdqBufAllocSize - 32 * cmdqInstSize

@[simp] theorem cmdqCmdBufferSize_eq : cmdqCmdBufferSize = 3840 := rfl

/-- The operation codes of `enum cmdq_code`. -/
inductive CmdqCode where
  | read | mask | move | write | poll | jump | wfe | eoc
  | writeFromMem | writeFromReg | setToken | waitNoClear | clearToken | raw
  | prefetchEnable | prefetchDisable
  | readS | writeS | writeSWMask | logic | jumpCAbsolute | jumpCRelative
  deriving DecidableEq, Repr

/-- The numeric value of an operation code. -/
def CmdqCode.val : CmdqCode → ℕ
  | read => 0x01
  | mask => 0x02
  | move => 0x02
  | write => 0x04
  | poll => 0x08
  | jump => 0x10
  | wfe => 0x20
  | eoc => 0x40
  | writeFromMem => 0x05
  | writeFromReg => 0x07
  | setToken => 0x21
  | waitNoClear => 0x22
  | clearToken => 0x23
  | raw => 0x24
  | prefetchEnable => 0x41
  | prefetchDisable => 0x42
  | readS => 0x80
  | writeS => 0x90
  | writeSWMask => 0x91
  | logic => 0xa0
  | jumpCAbsolute => 0xb0
  | jumpCRelative => 0xb1

/-- `struct cmdq_pkt_buffer`: the bytes behind `va_base`, their DMA address, and whether the buffer
came from a pool. -/
structure CmdqPktBuffer where
  vaBase : Mem
  paBase : ℕ
  usePool : Bool

/-- Store a 64-bit word at a byte offset of the buffer. -/
def CmdqPktBuffer.put (b : CmdqPktBuffer) (off w : ℕ) : CmdqPktBuffer :=
  { b with vaBase := writeLE b.vaBase off 8 w }

/-- The 64-bit word at a byte offset of the buffer. -/
def CmdqPktBuffer.get (b : CmdqPktBuffer) (off : ℕ) : ℕ := readLE b.vaBase off 8

/-- `struct cmdq_pkt`, with the fields that the modelled functions use. Of the callbacks there is
whether they are set. -/
structure CmdqPkt where
  buf : List CmdqPktBuffer
  availBufSize : ℕ
  cmdBufSize : ℕ
  bufSize : ℕ
  priority : ℕ
  loop : Bool
  cb : Bool
  errCb : Bool

/-- `cmdq_pkt_create`: a zeroed packet with an empty buffer list. -/
def cmdqPktCreate : CmdqPkt where
  buf := []
  availBufSize := 0
  cmdBufSize := 0
  bufSize := 0
  priority := 0
  loop := false
  cb := false
  errCb := false

variable (shift : ℕ) (mem : Option CmdqPktBuffer)

/-- `cmdq_pkt_alloc_buf`: add an allocated buffer at the tail of the packet. -/
def cmdqPktAllocBuf (pkt : CmdqPkt) : Except Errno (CmdqPktBuffer × CmdqPkt) :=
  match mem with
  | none => .error .ENOMEM
  | some buf => .ok (buf, { pkt with
      buf := pkt.buf ++ [buf]
      availBufSize := u64 (pkt.availBufSize + cmdqCmdBufferSize)
      bufSize := u64 (pkt.bufSize + cmdqCmdBufferSize) })

/-- The absolute jump that `cmdq_pkt_add_cmd_buffer` plants to reach `pa`. -/
def linkJump (pa : ℕ) : ℕ :=
  (CmdqCode.jump.val <<< 24 ||| 1) <<< 32 ||| (pa >>> shift &&& 0xFFFFFFFF)

/-- `cmdq_pkt_add_cmd_buffer`: the last instruction of a full buffer moves to the new one and a jump
replaces it. -/
def cmdqPktAddCmdBuffer (pkt : CmdqPkt) : Except Errno CmdqPkt := do
  let (buf, pkt') ← cmdqPktAllocBuf mem pkt
  match pkt.buf.getLast? with
  | none => return pkt'
  | some prev =>
    let last := cmdqCmdBufferSize - cmdqInstSize
    return { pkt' with
      buf := pkt.buf.modifyLast (·.put last (linkJump shift buf.paBase)) ++
        [buf.put 0 (prev.get last)]
      availBufSize := u64 (pkt'.availBufSize - cmdqInstSize)
      cmdBufSize := u64 (pkt'.cmdBufSize + cmdqInstSize) }

/-- `CMDQ_CMD_BUFFER_SIZE - avail_buf_size`: where in the last buffer the next command goes. A count
above the buffer size wraps. -/
def appendOffset (availBufSize : ℕ) : ℕ := u64 (cmdqCmdBufferSize - availBufSize)

/-- `cmdq_task_check_available`, and the same test at the head of every function that adds commands.
-/
def cmdqTaskCheckAvailable (pkt : CmdqPkt) : Except Errno CmdqPkt :=
  if pkt.availBufSize = 0 then cmdqPktAddCmdBuffer shift mem pkt else .ok pkt

/-- Append one instruction word, extending a full packet first: the common body of
`cmdq_pkt_append_command` and `cmdq_append_command_pkt`. -/
def pktAppendWord (w : ℕ) (pkt : CmdqPkt) : Except Errno CmdqPkt := do
  let pkt ← cmdqTaskCheckAvailable shift mem pkt
  return { pkt with
    buf := pkt.buf.modifyLast (·.put (appendOffset pkt.availBufSize) w)
    cmdBufSize := u64 (pkt.cmdBufSize + cmdqInstSize)
    availBufSize := u64 (pkt.availBufSize - cmdqInstSize) }

/-- The arguments of `cmdq_pkt_append_command`, at the widths of its parameters. -/
structure CmdqInstruction where
  argC : UInt16
  argB : UInt16
  argA : UInt16
  sOp : UInt8
  argCType : UInt8
  argBType : UInt8
  argAType : UInt8
  code : ℕ

/-- `cmdq_pkt_instr_encoder`: the bit fields of `struct cmdq_instruction`. Each argument is cut to
its field. -/
def cmdqPktInstrEncoder (i : CmdqInstruction) : ℕ :=
  i.argC.toNat + i.argB.toNat * 2 ^ 16 + i.argA.toNat * 2 ^ 32 +
    i.sOp.toNat % 2 ^ 5 * 2 ^ 48 + i.argCType.toNat % 2 * 2 ^ 53 +
    i.argBType.toNat % 2 * 2 ^ 54 + i.argAType.toNat % 2 * 2 ^ 55 + i.code % 2 ^ 8 * 2 ^ 56

/-- `cmdq_pkt_append_command`. -/
def cmdqPktAppendCommand (i : CmdqInstruction) (pkt : CmdqPkt) : Except Errno CmdqPkt :=
  pktAppendWord shift mem (cmdqPktInstrEncoder i) pkt

end Mt8169.Cmdq
