import Mt8169.Cmdq.Packet

/-!
# The command recorder

The recorder appends commands to a packet and builds `if` and `while` blocks from conditional jumps.
The target of a forward jump is not known when it is appended: its position is kept on a stack and
the jump is rewritten when the block ends. Before a packet is flushed, relative jumps are replaced
by absolute ones. The definitions follow `cmdq_record.c` and the replacement in `cmdq_helper_ext.c`.
The packet is given by the command words of its buffers, in order of their offset, link jumps
included.
-/

namespace Mt8169.Mdp

open Cmdq MachineInt

/-- A command word as the two 32-bit halves that the recorder patches: `va[1]` and
`va[0]`. -/
@[ext]
structure Slot where
  hi : ℕ
  lo : ℕ
  deriving DecidableEq, Repr

/-- The operation code of a command word. -/
def Slot.op (slot : Slot) : ℕ := slot.hi / 2 ^ 24

/-- What the recorder finds around it: the platform's address shift, the DMA addresses
of the buffers in order of their allocation, and the contents of the buffers where
nothing has been written yet. -/
structure RecEnv where
  gceShiftBit : ℕ
  paBase : ℕ → ℕ
  unwritten : ℕ → Slot

/-- `CMDQ_REG_SHIFT_ADDR`. -/
def RecEnv.cmdqRegShiftAddr (env : RecEnv) (addr : ℕ) : ℕ := addr / 2 ^ env.gceShiftBit

/-- `CMDQ_REG_REVERT_ADDR` of a 32-bit value. -/
def RecEnv.cmdqRegRevertAddr (env : RecEnv) (addr : ℕ) : ℕ := u32 (addr * 2 ^ env.gceShiftBit)

/-- `enum CMDQ_STACK_TYPE_ENUM`. -/
inductive CmdqStackType where
  | ifNode | elseNode | whileNode | breakNode | continueNode | doWhileNode
  deriving DecidableEq, Repr

/-- `struct cmdq_stack_node`. -/
structure CmdqStackNode where
  position : ℕ
  stackType : CmdqStackType
  deriving DecidableEq, Repr

/-- `struct cmdqRecStruct`, with the words and the number of buffers of its packet.
`timerLoop` says whether the scenario is `CMDQ_SCENARIO_TIMER_LOOP`, `changeJump` is that
of the controller. -/
structure CmdqRec where
  slots : List Slot
  nbuf : ℕ
  ifStackNode : List CmdqStackNode
  whileStackNode : List CmdqStackNode
  replaceInstr : List ℕ
  localVarNum : ℕ
  timerLoop : Bool
  jumpReplace : Bool
  changeJump : Bool
  finalized : Bool
  deriving DecidableEq, Repr

/-- A handle after `cmdq_task_reset`. -/
def CmdqRec.reset (timerLoop : Bool) : CmdqRec where
  slots := []
  nbuf := 0
  ifStackNode := []
  whileStackNode := []
  replaceInstr := []
  localVarNum := 2
  timerLoop := timerLoop
  jumpReplace := true
  changeJump := true
  finalized := false

variable (env : RecEnv) (h : CmdqRec)

/-- `cmd_buf_size` of the packet. -/
def CmdqRec.cmdBufSize : ℕ := cmdqInstSize * h.slots.length

/-- `buf_size` of the packet. -/
def CmdqRec.bufSize : ℕ := cmdqCmdBufferSize * h.nbuf

/-- `avail_buf_size` of the packet. -/
def CmdqRec.availBufSize : ℕ := h.bufSize - h.cmdBufSize

/-- `cmdq_task_get_inst_cnt`. -/
def CmdqRec.cmdqTaskGetInstCnt : ℕ := u32 (h.cmdBufSize / cmdqInstSize)

/-- `cmdq_pkt_get_va_by_offset`, as the index of a command word. -/
def CmdqRec.getVaByOffset (offset : ℕ) : Option ℕ :=
  if offset < h.bufSize then some (offset / cmdqInstSize) else none

/-- `cmdq_pkt_get_pa_by_offset`. -/
def CmdqRec.getPaByOffset (offset : ℕ) : ℕ :=
  if offset < h.bufSize then
    env.paBase (offset / cmdqCmdBufferSize) + offset % cmdqCmdBufferSize
  else 0

/-- The command word at an index. -/
def CmdqRec.slotAt (i : ℕ) : Slot :=
  h.slots[i]?.getD (env.unwritten i)

/-- Overwrite the command word at an index. -/
def CmdqRec.setSlot (i : ℕ) (slot : Slot) : CmdqRec :=
  { h with slots := h.slots.set i slot }

/-- The absolute jump to a buffer that `cmdq_pkt_add_cmd_buffer` plants. -/
def RecEnv.linkSlot (buf : ℕ) : Slot where
  hi := CmdqCode.jump.val <<< 24 ||| 1
  lo := env.cmdqRegShiftAddr (env.paBase buf) % 2 ^ 32

/-- `cmdq_pkt_add_cmd_buffer` on a packet without free space: the last word moves to the
new buffer and a link jump takes its place. -/
def CmdqRec.addCmdBuffer : CmdqRec :=
  match h.slots.getLast? with
  | none => { h with nbuf := h.nbuf + 1 }
  | some last =>
    { h with
      nbuf := h.nbuf + 1
      slots := h.slots.dropLast ++ [env.linkSlot h.nbuf, last] }

/-- `cmdq_task_check_available`. -/
def CmdqRec.cmdqTaskCheckAvailable : CmdqRec :=
  if h.availBufSize = 0 then h.addCmdBuffer env else h

/-- `cmdq_check_before_append`. -/
def cmdqCheckBeforeAppend : Except Errno CmdqRec :=
  if h.finalized then .error .EBUSY else .ok (h.cmdqTaskCheckAvailable env)

/-- Write a command word at the end of the packet. -/
def CmdqRec.append (slot : Slot) : CmdqRec :=
  let h := h.cmdqTaskCheckAvailable env
  { h with slots := h.slots ++ [slot] }

/-- `cmdq_append_command_pkt`. -/
def cmdqAppendCommandPkt (code : CmdqCode) (argA argB : ℕ) : CmdqRec :=
  h.append env { hi := code.val <<< 24 ||| argA, lo := argB }

/-- `cmdq_save_op_variable_position`. -/
def CmdqRec.saveOpVariablePosition (index : ℕ) : CmdqRec :=
  { h with replaceInstr := h.replaceInstr ++ [index] }

/-- The index under which a jump that has just been appended is saved: a jump in the
last place of a buffer will move on by one place. -/
def CmdqRec.jumpIdx : ℕ :=
  if h.cmdBufSize % cmdqCmdBufferSize = 0 then h.cmdqTaskGetInstCnt
  else u32 (h.cmdqTaskGetInstCnt - 1)

/-- `CMDQ_DATA_BIT`: the top bits of a `CMDQ_VARIABLE` tell values and variables apart. -/
def cmdqDataBit : ℕ := 62

/-- `CMDQ_SPR_FOR_TEMP`. -/
def cmdqSprForTemp : ℕ := 0

/-- `CMDQ_TASK_TEMP_CPR_VAR`. -/
def cmdqTaskTempCprVar : ℕ := 1 <<< cmdqDataBit ||| cmdqSprForTemp

/-- `CMDQ_THR_FREE_USR_VAR_MAX`. -/
def cmdqThrFreeUsrVarMax : ℕ := 4 + 4

/-- `cmdq_var_data_type`: the argument and its type, 0 for a value and 1 for a variable. -/
def cmdqVarDataType (argIn : ℕ) : Except Errno (ℕ × ℕ) :=
  if argIn >>> cmdqDataBit = 0 then .ok (argIn % 2 ^ 32, 0)
  else if argIn >>> cmdqDataBit = 1 then .ok (argIn % 2 ^ 32, 1)
  else .error .EFAULT

/-- `cmdq_create_variable_if_need`. -/
def cmdqCreateVariableIfNeed (arg : ℕ) : Except Errno (CmdqRec × ℕ) := do
  let (_, argType) ← cmdqVarDataType arg
  if argType = 1 then .ok (h, arg)
  else if cmdqThrFreeUsrVarMax ≤ h.localVarNum then .error .EFAULT
  else .ok ({ h with localVarNum := h.localVarNum + 1 }, 1 <<< cmdqDataBit ||| h.localVarNum)

/-- `enum CMDQ_LOGIC_ENUM`. -/
inductive CmdqLogic where
  | assign | add | subtract | multiply | xor | not | or | and | leftShift | rightShift
  deriving DecidableEq, Repr

/-- The numeric value of a logic operation. -/
def CmdqLogic.val : CmdqLogic → ℕ
  | assign => 0
  | add => 1
  | subtract => 2
  | multiply => 3
  | xor => 8
  | not => 9
  | or => 10
  | and => 11
  | leftShift => 12
  | rightShift => 13

/-- `cmdq_append_logic_command`. The variable that is assigned may be a new one. -/
def cmdqAppendLogicCommand (argA argB : ℕ) (sOp : CmdqLogic) (argC : ℕ) :
    Except Errno (CmdqRec × ℕ) := do
  let h ← cmdqCheckBeforeAppend env h
  let (argBI, argBType) ← cmdqVarDataType argB
  let (argCI, argCType) ← cmdqVarDataType argC
  let (h, argA) ← cmdqCreateVariableIfNeed h argA
  let (argAI, _) ← cmdqVarDataType argA
  let argAbcType := 1 <<< 2 ||| argBType <<< 1 ||| argCType
  .ok (cmdqAppendCommandPkt env h .logic (argAbcType <<< 21 ||| sOp.val <<< 16 ||| argAI)
    (u32 (argBI * 2 ^ 16) ||| argCI % 2 ^ 16), argA)

/-- `cmdq_op_assign`. -/
def cmdqOpAssign (argOut argIn : ℕ) : Except Errno (CmdqRec × ℕ) :=
  if argIn >>> cmdqDataBit = 0 then
    cmdqAppendLogicCommand env h argOut (argIn >>> 16 % 2 ^ 16) .assign (argIn % 2 ^ 16)
  else .error .EFAULT

/-- `enum CMDQ_CONDITION_ENUM`. -/
inductive CmdqCondition where
  | equal | notEqual | greaterThanAndEqual | lessThanAndEqual | greaterThan | lessThan
  deriving DecidableEq, Repr

/-- The numeric value of a condition. -/
def CmdqCondition.val : CmdqCondition → ℕ
  | equal => 0
  | notEqual => 1
  | greaterThanAndEqual => 2
  | lessThanAndEqual => 3
  | greaterThan => 4
  | lessThan => 5

/-- `cmdq_reverse_op_condition`. -/
def CmdqCondition.reverse : CmdqCondition → CmdqCondition
  | equal => notEqual
  | notEqual => equal
  | greaterThanAndEqual => lessThan
  | lessThanAndEqual => greaterThan
  | greaterThan => lessThanAndEqual
  | lessThan => greaterThanAndEqual

/-- The address that is loaded or encoded until the target of a jump is known. -/
def dummyAddress : ℕ := 8

variable (env : RecEnv) (h : CmdqRec) (argB : ℕ) (argCondition : CmdqCondition) (argC : ℕ)

/-- The instruction in front of a conditional jump that loads its target. There is none in
a timer loop. -/
def loadJumpAddress : Except Errno CmdqRec :=
  if h.timerLoop then .ok h
  else (cmdqOpAssign env h cmdqTaskTempCprVar dummyAddress).map Prod.fst

/-- The target operand of a conditional jump and its type: the temporary register, or an
offset in a timer loop. -/
def jumpCArgA (timerLoop : Bool) : ℕ × ℕ :=
  if timerLoop then (dummyAddress, 0) else (cmdqSprForTemp, 1)

/-- `cmdq_append_jump_c_command`: jump if the condition does not hold. -/
def cmdqAppendJumpCCommand : Except Errno CmdqRec := do
  let h ← loadJumpAddress env h
  let h ← cmdqCheckBeforeAppend env h
  let (argAI, argAType) := jumpCArgA h.timerLoop
  let (argBI, argBType) ← cmdqVarDataType argB
  let (argCI, argCType) ← cmdqVarDataType argC
  let argAbcType := argAType <<< 2 ||| argBType <<< 1 ||| argCType
  let h := cmdqAppendCommandPkt env h .jumpCRelative
    (argAbcType <<< 21 ||| argCondition.reverse.val <<< 16 ||| argAI)
    (u32 (argBI * 2 ^ 16) ||| argCI)
  .ok (h.saveOpVariablePosition h.jumpIdx)

/-- `cmdq_append_command` for `CMDQ_CODE_JUMP`. -/
def cmdqAppendJump (argA argB : ℕ) : Except Errno CmdqRec := do
  let h ← cmdqCheckBeforeAppend env h
  let newArgB := if argA % 2 = 1 then env.cmdqRegShiftAddr argB
    else u32 (s32 argB / 2 ^ env.gceShiftBit)
  let h := cmdqAppendCommandPkt env h .jump (argA % 2 ^ 24) newArgB
  if h.jumpReplace && argA % 2 = 0 && h.changeJump then
    .ok (h.saveOpVariablePosition h.jumpIdx)
  else .ok h

/-- `cmdq_op_rewrite_jump_c`: let the jump of a block at `logicPos` lead to
`exitWhilePos`. -/
def cmdqOpRewriteJumpC (logicPos exitWhilePos : ℕ) : Except Errno CmdqRec :=
  if h.timerLoop then
    match h.getVaByOffset logicPos with
    | none => .error .EINVAL
    | some vaJump =>
      let jump := h.slotAt env vaJump
      if jump.op ≠ CmdqCode.jumpCRelative.val then .error .EFAULT
      else
        .ok (h.setSlot vaJump { jump with
          hi := (jump.hi / 2 ^ 16) <<< 16 |||
            env.cmdqRegShiftAddr (u32 (exitWhilePos - logicPos) % 2 ^ 16) })
  else
    match h.getVaByOffset logicPos with
    | none => .error .EINVAL
    | some vaLogic =>
      let jumpPos := if u32 (logicPos + cmdqInstSize * 2) % cmdqCmdBufferSize = 0
        then u32 (logicPos + cmdqInstSize * 2) else u32 (logicPos + cmdqInstSize)
      match h.getVaByOffset jumpPos with
      | none => .error .EINVAL
      | some vaJump =>
        let logic := h.slotAt env vaLogic
        if logic.op ≠ CmdqCode.logic.val ∨
            (h.slotAt env vaJump).op ≠ CmdqCode.jumpCRelative.val then .error .EFAULT
        else
          .ok (h.setSlot vaLogic { logic with
            lo := (logic.lo / 2 ^ 16) <<< 16 |||
              env.cmdqRegShiftAddr (u32 (exitWhilePos - logicPos - cmdqInstSize)) })

/-- `cmdq_op_rewrite_jump_c` where its status is ignored. -/
def CmdqRec.rewriteJumpC (logicPos exitWhilePos : ℕ) : CmdqRec :=
  (cmdqOpRewriteJumpC env h logicPos exitWhilePos).toOption.getD h

/-- `cmdq_op_check_logic_pos`. -/
def cmdqOpCheckLogicPos (logicPos : ℕ) : ℕ :=
  if u32 (logicPos + cmdqInstSize) % cmdqCmdBufferSize = 0 ∨ logicPos % cmdqCmdBufferSize = 0 then
    u32 (logicPos + cmdqInstSize)
  else logicPos

/-- The position of the next instruction, in the 32-bit variables that hold it. -/
def CmdqRec.nextPos : ℕ :=
  if h.cmdBufSize % cmdqCmdBufferSize = 0 then u32 (h.cmdBufSize + cmdqInstSize)
  else u32 h.cmdBufSize

/-- `cmdq_op_if`. -/
def cmdqOpIf : Except Errno CmdqRec := do
  let logicPos := u32 h.cmdBufSize
  let h ← cmdqAppendJumpCCommand env h argB argCondition argC
  .ok { h with ifStackNode := ⟨cmdqOpCheckLogicPos logicPos, .ifNode⟩ :: h.ifStackNode }

/-- The loop of `cmdq_op_end_if` and its status: the first node is popped, and then all
`else` nodes under it. -/
def endIfLoop (env : RecEnv) (h : CmdqRec) (ifCount : ℤ) : List CmdqStackNode → CmdqRec × ℤ
  | [] => ({ h with ifStackNode := [] }, -1)
  | node :: nodes =>
    if node.stackType = .ifNode ∧ ifCount ≤ 0 ∨
        node.stackType ≠ .ifNode ∧ node.stackType ≠ .elseNode then
      ({ h with ifStackNode := node :: nodes }, 0)
    else endIfLoop env (h.rewriteJumpC env node.position h.nextPos) (ifCount - 1) nodes

/-- `cmdq_op_end_if`. -/
def cmdqOpEndIf : CmdqRec × ℤ := endIfLoop env h 1 h.ifStackNode

/-- `cmdq_op_else`. -/
def cmdqOpElse : Except Errno CmdqRec :=
  let logicPos := u32 h.cmdBufSize
  match h.ifStackNode with
  | ⟨ifLogicPos, .ifNode⟩ :: nodes => do
    let h ← cmdqAppendJumpCCommand env h 1 .notEqual 1
    let elseNextPos := u32 h.cmdBufSize
    let elseNextPos := if elseNextPos % cmdqCmdBufferSize = 0
      then u32 (elseNextPos + cmdqInstSize) else elseNextPos
    let h := h.rewriteJumpC env ifLogicPos elseNextPos
    .ok { h with ifStackNode := ⟨cmdqOpCheckLogicPos logicPos, .elseNode⟩ :: nodes }
  | _ => .error .EFAULT

/-- `cmdq_op_else_if`. -/
def cmdqOpElseIf : Except Errno CmdqRec := do
  let h ← cmdqOpElse env h
  cmdqOpIf env h argB argCondition argC

/-- `cmdq_op_while`. -/
def cmdqOpWhile : Except Errno CmdqRec := do
  let logicPos := u32 h.cmdBufSize
  let h ← cmdqAppendJumpCCommand env h argB argCondition argC
  .ok { h with whileStackNode := ⟨cmdqOpCheckLogicPos logicPos, .whileNode⟩ :: h.whileStackNode }

/-- `cmdq_op_condition_find_op_type` for the two kinds of loop: the innermost loop. -/
def findLoop (nodes : List CmdqStackNode) : Option CmdqStackNode :=
  nodes.find? fun node => node.stackType = .whileNode || node.stackType = .doWhileNode

/-- `cmdq_op_continue`. -/
def cmdqOpContinue : Except Errno CmdqRec :=
  let currentPosition := u32 h.cmdBufSize
  match findLoop h.whileStackNode with
  | none => .error .EFAULT
  | some node =>
    if node.stackType = .whileNode then
      let rewritten := s32 (node.position - currentPosition)
      let rewritten := if u32 (currentPosition + cmdqInstSize) % cmdqCmdBufferSize = 0 ∨
          currentPosition % cmdqCmdBufferSize = 0 then rewritten - cmdqInstSize else rewritten
      cmdqAppendJump env h 0 (u32 rewritten)
    else do
      let h ← cmdqAppendJumpCCommand env h 1 .notEqual 1
      .ok { h with whileStackNode := ⟨currentPosition, .continueNode⟩ :: h.whileStackNode }

/-- `cmdq_op_break`. -/
def cmdqOpBreak : Except Errno CmdqRec :=
  let logicPos := u32 h.cmdBufSize
  let whilePosition := (findLoop h.whileStackNode).elim logicPos (·.position)
  if 0 ≤ s32 (whilePosition - logicPos) then .error .EFAULT
  else do
    let h ← cmdqAppendJumpCCommand env h 1 .notEqual 1
    .ok { h with whileStackNode := ⟨cmdqOpCheckLogicPos logicPos, .breakNode⟩ :: h.whileStackNode }

/-- The loop of `cmdq_op_end_while` and its status: nodes are popped up to the second
`while` node. -/
def endWhileLoop (env : RecEnv) (h : CmdqRec) (exitWhilePos : ℕ) (whileCount : ℤ) :
    List CmdqStackNode → Except Errno (CmdqRec × ℤ)
  | [] => .ok ({ h with whileStackNode := [] }, -1)
  | node :: nodes =>
    match node.stackType with
    | .doWhileNode => .error .EFAULT
    | .whileNode =>
      if whileCount ≤ 0 then .ok ({ h with whileStackNode := node :: nodes }, 0)
      else endWhileLoop env (h.rewriteJumpC env node.position exitWhilePos) exitWhilePos
        (whileCount - 1) nodes
    | .breakNode =>
      endWhileLoop env (h.rewriteJumpC env node.position exitWhilePos) exitWhilePos whileCount nodes
    | _ => .ok ({ h with whileStackNode := node :: nodes }, 0)

/-- `cmdq_op_end_while`. -/
def cmdqOpEndWhile : Except Errno (CmdqRec × ℤ) := do
  let h ← cmdqOpContinue env h
  endWhileLoop env h h.nextPos 1 h.whileStackNode

/-- `cmdq_core_v3_adjust_jump`: make a relative jump absolute. -/
def cmdqCoreV3AdjustJump (instrPos va : ℕ) : CmdqRec :=
  let jump := h.slotAt env va
  if jump.hi % 2 = 1 then h
  else
    let offset := u32 (instrPos * cmdqInstSize + env.cmdqRegRevertAddr jump.lo)
    let offset := if offset = h.bufSize then u32 (offset - cmdqInstSize) else offset
    h.setSlot va
      { hi := jump.hi ||| 1
        lo := env.cmdqRegShiftAddr (h.getPaByOffset env offset) % 2 ^ 32 }

/-- The word that loads the target of the conditional jump at `instIdx`, and whether a link
jump lies between them. -/
def jumpCLogic (instIdx : ℕ) : Option (ℕ × Bool) := do
  let vaLogic ← h.getVaByOffset (u32 ((instIdx - 1 : ℤ) * cmdqInstSize))
  if (h.slotAt env vaLogic).hi = CmdqCode.jump.val <<< 24 ||| 1 then
    let vaLogic ← h.getVaByOffset (u32 ((instIdx - 2 : ℤ) * cmdqInstSize))
    some (vaLogic, true)
  else some (vaLogic, false)

/-- `cmdq_core_v3_replace_jumpc`: load an absolute address for a conditional jump. -/
def cmdqCoreV3ReplaceJumpc (va instIdx instPos : ℕ) : CmdqRec :=
  match jumpCLogic env h instIdx with
  | none => h
  | some (vaLogic, reviseOffset) =>
    let logic := h.slotAt env vaLogic
    if logic.op = CmdqCode.logic.val ∧ logic.hi / 2 ^ 16 % 2 ^ 5 = CmdqLogic.assign.val then
      let jumpOffset := env.cmdqRegRevertAddr logic.lo
      let offsetTarget := if reviseOffset
        then u32 ((instPos - 1 : ℤ) * cmdqInstSize + jumpOffset)
        else u32 (instPos * cmdqInstSize + jumpOffset)
      let destAddrPa := h.getPaByOffset env offsetTarget
      if destAddrPa = 0 then h
      else
        let jump := h.slotAt env va
        (h.setSlot vaLogic
          { logic with lo := env.cmdqRegShiftAddr destAddrPa % 2 ^ 32 }).setSlot va
          { jump with hi := CmdqCode.jumpCAbsolute.val <<< 24 ||| jump.hi % 2 ^ 24 }
    else h

/-- One turn of the loop of `cmdq_core_replace_v3_instr`. -/
def replaceOne (position : ℕ) : CmdqRec :=
  -- the last jump instruction may not adjust, return back 1 instruction
  let instIdx := if position = h.bufSize / cmdqInstSize then position - 1 else position
  match h.getVaByOffset (u32 (instIdx * cmdqInstSize)) with
  | none => h
  | some va =>
    if (h.slotAt env va).op = CmdqCode.jump.val then
      if h.changeJump then cmdqCoreV3AdjustJump env h position va else h
    else if (h.slotAt env va).op = CmdqCode.jumpCRelative.val then
      if h.changeJump then cmdqCoreV3ReplaceJumpc env h va instIdx position else h
    else h

/-- The loop of `cmdq_core_replace_v3_instr`. It ends at the first position outside the
packet. -/
def replaceLoop (env : RecEnv) (h : CmdqRec) : List ℕ → CmdqRec
  | [] => h
  | position :: positions =>
    if h.cmdBufSize < u32 ((position + 1) * cmdqInstSize) then h
    else replaceLoop env (replaceOne env h position) positions

/-- `cmdq_core_replace_v3_instr`. -/
def cmdqCoreReplaceV3Instr : CmdqRec :=
  replaceLoop env h h.replaceInstr

end Mt8169.Mdp
