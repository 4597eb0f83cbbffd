import Mt8169.Mdp.Record

/-!
# What the recorder emits

A structured program is built from commands, `if` chains and `while` loops, and `compile` makes the
calls of the recorder for it. A block starts with a conditional jump whose target is not known yet.
The call that ends the block overwrites the word that loads the target, and a loop gets a jump back.
-/

namespace Mt8169.Mdp

open Cmdq MachineInt List

/-- A condition between two arguments of type `CMDQ_VARIABLE`. -/
structure Test where
  argB : ℕ
  condition : CmdqCondition
  argC : ℕ
  deriving DecidableEq, Repr

/-- A piece of a program is a statement or what follows the first branch of an `if` chain. -/
inductive CodeKind where
  | stmt | tail

/-- Well-nested programs. `cmd` is a command of one or more words; an `if` chain goes on in
its tail, which ends in `cmdq_op_end_if`. -/
inductive Code : CodeKind → Type
  | skip : Code .stmt
  | cmd (words : List Slot) : Code .stmt
  | seq (p q : Code .stmt) : Code .stmt
  | cond (t : Test) (p : Code .stmt) (rest : Code .tail) : Code .stmt
  | loop (t : Test) (p : Code .stmt) : Code .stmt
  | cont : Code .stmt
  | brk : Code .stmt
  | endIf : Code .tail
  | els (p : Code .stmt) : Code .tail
  | elseIf (t : Test) (p : Code .stmt) (rest : Code .tail) : Code .tail

/-- The calls of the recorder that append the words of a command. -/
def appendWords (env : RecEnv) : List Slot → CmdqRec → Except Errno CmdqRec
  | [], h => .ok h
  | word :: words, h => do
    let h ← cmdqCheckBeforeAppend env h
    appendWords env words (h.append env word)

/-- The calls of the recorder that build a program. The status of the calls that end a
block is ignored: it is negative whenever a stack runs empty. -/
def Code.compile (env : RecEnv) : {kind : CodeKind} → Code kind → CmdqRec → Except Errno CmdqRec
  | _, .skip, h => .ok h
  | _, .cmd words, h => appendWords env words h
  | _, .seq p q, h => do
    let h ← p.compile env h
    q.compile env h
  | _, .cond t p rest, h => do
    let h ← cmdqOpIf env h t.argB t.condition t.argC
    let h ← p.compile env h
    rest.compile env h
  | _, .loop t p, h => do
    let h ← cmdqOpWhile env h t.argB t.condition t.argC
    let h ← p.compile env h
    let (h, _) ← cmdqOpEndWhile env h
    .ok h
  | _, .cont, h => cmdqOpContinue env h
  | _, .brk, h => cmdqOpBreak env h
  | _, .endIf, h => .ok (cmdqOpEndIf env h).1
  | _, .els p, h => do
    let h ← cmdqOpElse env h
    let h ← p.compile env h
    .ok (cmdqOpEndIf env h).1
  | _, .elseIf t p rest, h => do
    let h ← cmdqOpElseIf env h t.argB t.condition t.argC
    let h ← p.compile env h
    rest.compile env h

/-- The command that loads the target of a jump. -/
def loadSlot (lo : ℕ) : Slot where
  hi := 0xa0800000
  lo := lo

/-- A conditional jump of either kind that is taken unless a condition holds. -/
def jumpCSlot (code : CmdqCode) (t : Test) : Slot where
  hi := code.val <<< 24 |||
    ((1 <<< 2 ||| (t.argB >>> cmdqDataBit) <<< 1 ||| t.argC >>> cmdqDataBit) <<< 21 |||
      t.condition.reverse.val <<< 16 ||| cmdqSprForTemp)
  lo := u32 ((t.argB % 2 ^ 32 : ℕ) * 2 ^ 16) ||| t.argC % 2 ^ 32

/-- The address of a command word. -/
def RecEnv.slotPa (env : RecEnv) (i : ℕ) : ℕ := env.paBase (i / 480) + cmdqInstSize * (i % 480)

variable (env : RecEnv) (i : ℕ)

/-- The load of a target at the word `e` by the word `i`, as an offset. -/
def RecEnv.relLoad (e : ℕ) : Slot :=
  loadSlot (env.cmdqRegShiftAddr (cmdqInstSize * (e - i - 1)))

/-- The handle takes commands, and its jumps will be made absolute. -/
structure Live (h : CmdqRec) : Prop where
  notTimer : h.timerLoop = false
  jumpReplace : h.jumpReplace = true
  changeJump : h.changeJump = true
  notFinalized : h.finalized = false
  room : h.slots.length ≤ 480 * h.nbuf

theorem cmdqVarDataType_eq {arg : ℕ} (harg : arg >>> cmdqDataBit ≤ 1) :
    cmdqVarDataType arg = .ok (arg % 2 ^ 32, arg >>> cmdqDataBit) := by
  unfold cmdqVarDataType
  rcases Nat.le_one_iff_eq_zero_or_eq_one.mp harg with hzero | hone
  · rw [if_pos hzero, hzero]
  · rw [if_neg (by omega), if_pos hone, hone]

theorem CmdqRec.length_addCmdBuffer_le (h : CmdqRec) :
    (h.addCmdBuffer env).slots.length ≤ h.slots.length + 1 := by
  unfold addCmdBuffer
  cases hlast : h.slots.getLast? with
  | none => exact Nat.le_succ _
  | some last =>
    have hpos : 0 < h.slots.length := by
      cases hslots : h.slots with
      | nil => simp [hslots] at hlast
      | cons slot slots => simp
    simp only [length_append, length_dropLast, length_cons, length_nil]
    omega

theorem CmdqRec.nbuf_addCmdBuffer (h : CmdqRec) : (h.addCmdBuffer env).nbuf = h.nbuf + 1 := by
  unfold addCmdBuffer
  cases h.slots.getLast? <;> rfl

section Live

variable {env : RecEnv} {h : CmdqRec} (hl : Live h) {t : Test}
include hl

theorem Live.append_checkAvailable (env : RecEnv) (slot : Slot) :
    (h.cmdqTaskCheckAvailable env).append env slot = h.append env slot := by
  have hroom := hl.room
  have hagain : (h.cmdqTaskCheckAvailable env).cmdqTaskCheckAvailable env =
      h.cmdqTaskCheckAvailable env := by
    by_cases havail : h.availBufSize = 0
    · have hlen := h.length_addCmdBuffer_le env
      have hnext : (h.addCmdBuffer env).availBufSize ≠ 0 := by
        simp only [CmdqRec.availBufSize, CmdqRec.bufSize, CmdqRec.cmdBufSize,
          h.nbuf_addCmdBuffer env, cmdqCmdBufferSize_eq, cmdqInstSize]
        omega
      rw [CmdqRec.cmdqTaskCheckAvailable, CmdqRec.cmdqTaskCheckAvailable, if_pos havail,
        if_neg hnext]
    · rw [CmdqRec.cmdqTaskCheckAvailable, CmdqRec.cmdqTaskCheckAvailable, if_neg havail,
        if_neg havail]
  unfold CmdqRec.append
  rw [hagain]

/-- An appended word leaves a packet to which words may be appended. -/
theorem Live.append (env : RecEnv) (slot : Slot) : Live (h.append env slot) := by
  obtain ⟨hnotTimer, hjumpReplace, hchangeJump, hnotFinalized, hroom⟩ := hl
  unfold CmdqRec.append CmdqRec.cmdqTaskCheckAvailable
  by_cases havail : h.availBufSize = 0
  · have hlen := h.length_addCmdBuffer_le env
    have hnbuf := h.nbuf_addCmdBuffer env
    rw [if_pos havail]
    refine ⟨?_, ?_, ?_, ?_, ?_⟩
    · unfold CmdqRec.addCmdBuffer
      cases h.slots.getLast? <;> exact hnotTimer
    · unfold CmdqRec.addCmdBuffer
      cases h.slots.getLast? <;> exact hjumpReplace
    · unfold CmdqRec.addCmdBuffer
      cases h.slots.getLast? <;> exact hchangeJump
    · unfold CmdqRec.addCmdBuffer
      cases h.slots.getLast? <;> exact hnotFinalized
    · simp only [length_append, length_singleton, hnbuf]
      omega
  · rw [if_neg havail]
    refine ⟨hnotTimer, hjumpReplace, hchangeJump, hnotFinalized, ?_⟩
    simp only [CmdqRec.availBufSize, CmdqRec.bufSize, CmdqRec.cmdBufSize, cmdqCmdBufferSize,
      cmdqBufAllocSize, cmdqInstSize] at havail
    simp only [length_append, length_singleton]
    omega

theorem Live.checkBeforeAppend (env : RecEnv) :
    cmdqCheckBeforeAppend env h = .ok (h.cmdqTaskCheckAvailable env) := by
  rw [cmdqCheckBeforeAppend, hl.notFinalized, if_neg Bool.false_ne_true]

theorem Live.appendLogicCommand {argA argB argC a b c typeB typeC : ℕ}
    (hargA : cmdqVarDataType argA = .ok (a, 1)) (hargB : cmdqVarDataType argB = .ok (b, typeB))
    (hargC : cmdqVarDataType argC = .ok (c, typeC)) (sOp : CmdqLogic) :
    cmdqAppendLogicCommand env h argA argB sOp argC =
      .ok (h.append env ⟨CmdqCode.logic.val <<< 24 |||
        ((1 <<< 2 ||| typeB <<< 1 ||| typeC) <<< 21 ||| sOp.val <<< 16 ||| a),
        u32 (b * 2 ^ 16) ||| c % 2 ^ 16⟩, argA) := by
  simp only [cmdqAppendLogicCommand, hl.checkBeforeAppend env, hargB, hargC,
    cmdqCreateVariableIfNeed, hargA, if_true, bind, Except.bind, cmdqAppendCommandPkt,
    hl.append_checkAvailable env]

theorem Live.loadJumpAddress :
    loadJumpAddress env h = .ok (h.append env (loadSlot dummyAddress)) := by
  have hvalue : dummyAddress >>> cmdqDataBit = 0 := by decide
  have htemp : cmdqVarDataType cmdqTaskTempCprVar = .ok (cmdqSprForTemp, 1) := by decide
  have hzero : cmdqVarDataType (dummyAddress >>> 16 % 2 ^ 16) = .ok (0, 0) := by decide
  have height : cmdqVarDataType (dummyAddress % 2 ^ 16) = .ok (dummyAddress, 0) := by decide
  have hword : (⟨CmdqCode.logic.val <<< 24 ||| ((1 <<< 2 ||| 0 <<< 1 ||| 0) <<< 21 |||
      CmdqLogic.assign.val <<< 16 ||| cmdqSprForTemp),
      u32 ((0 : ℕ) * 2 ^ 16) ||| dummyAddress % 2 ^ 16⟩ : Slot) = loadSlot dummyAddress := by decide
  rw [Mdp.loadJumpAddress, hl.notTimer, if_neg Bool.false_ne_true, cmdqOpAssign, if_pos hvalue,
    hl.appendLogicCommand htemp hzero height, hword]
  rfl

/-- A conditional jump is two words, the first of which loads its address. -/
theorem Live.appendJumpC (hargB : t.argB >>> cmdqDataBit ≤ 1) (hargC : t.argC >>> cmdqDataBit ≤ 1) :
    cmdqAppendJumpCCommand env h t.argB t.condition t.argC =
      .ok (((h.append env (loadSlot dummyAddress)).append env
        (jumpCSlot .jumpCRelative t)).saveOpVariablePosition
          ((h.append env (loadSlot dummyAddress)).append env
            (jumpCSlot .jumpCRelative t)).jumpIdx) := by
  have hl1 := hl.append env (loadSlot dummyAddress)
  have hnotTimer : ((h.append env (loadSlot dummyAddress)).cmdqTaskCheckAvailable env).timerLoop =
      false := by
    unfold CmdqRec.cmdqTaskCheckAvailable CmdqRec.addCmdBuffer
    split
    · split <;> exact hl1.notTimer
    · exact hl1.notTimer
  simp only [cmdqAppendJumpCCommand, hl.loadJumpAddress, bind, Except.bind,
    hl1.checkBeforeAppend env, cmdqVarDataType_eq hargB, cmdqVarDataType_eq hargC, jumpCArgA,
    hnotTimer, Bool.false_eq_true, if_false, cmdqAppendCommandPkt, hl1.append_checkAvailable env]
  rfl

theorem Live.appendJump (arg : ℕ) :
    cmdqAppendJump env h 0 arg =
      .ok ((h.append env ⟨CmdqCode.jump.val <<< 24,
        u32 (s32 arg / 2 ^ env.gceShiftBit)⟩).saveOpVariablePosition
          (h.append env ⟨CmdqCode.jump.val <<< 24,
            u32 (s32 arg / 2 ^ env.gceShiftBit)⟩).jumpIdx) := by
  have hl1 := hl.append env ⟨CmdqCode.jump.val <<< 24, u32 (s32 arg / 2 ^ env.gceShiftBit)⟩
  have hword : ∀ lo, (⟨CmdqCode.jump.val <<< 24 ||| 0 % 2 ^ 24, lo⟩ : Slot) =
      ⟨CmdqCode.jump.val <<< 24, lo⟩ := fun lo => by congr 1
  have hodd : ¬0 % 2 = 1 := by decide
  simp only [cmdqAppendJump, hl.checkBeforeAppend env, bind, Except.bind, cmdqAppendCommandPkt,
    hl.append_checkAvailable env, hword, if_neg hodd, hl1.jumpReplace, hl1.changeJump]
  rfl

theorem Live.appendWords (words : List Slot) :
    appendWords env words h = .ok (words.foldl (fun h word => h.append env word) h) := by
  induction words generalizing h with
  | nil => rfl
  | cons word words ih =>
    simp only [Mdp.appendWords, hl.checkBeforeAppend env, bind, Except.bind,
      hl.append_checkAvailable env, ih (hl.append env word), foldl_cons]

end Live

/-- The handle records into the buffer `k`. -/
structure Ready (k : ℕ) (h : CmdqRec) : Prop where
  nbuf : h.nbuf = k + 1
  fits : cmdqCmdBufferSize * (k + 1) < 2 ^ 32
  notTimer : h.timerLoop = false
  jumpReplace : h.jumpReplace = true
  changeJump : h.changeJump = true
  notFinalized : h.finalized = false

/-- The handle with another stack of `if` nodes. -/
def CmdqRec.withIf (h : CmdqRec) (nodes : List CmdqStackNode) : CmdqRec :=
  { h with ifStackNode := nodes }

/-- The handle with another stack of `while` nodes. -/
def CmdqRec.withWhile (h : CmdqRec) (nodes : List CmdqStackNode) : CmdqRec :=
  { h with whileStackNode := nodes }

/-- A stack node for a block that starts at the word `n`. -/
def node (stackType : CmdqStackType) (n : ℕ) : CmdqStackNode := ⟨cmdqInstSize * n, stackType⟩

section Rewrite

variable {env : RecEnv} {q : ℕ} {count : ℤ} {t : Test} {base : List CmdqStackNode}

/-- The arguments of a condition are values or variables. -/
def Test.TypesOk (t : Test) : Prop := t.argB >>> cmdqDataBit ≤ 1 ∧ t.argC >>> cmdqDataBit ≤ 1

theorem jumpCSlot_hi (htypes : t.TypesOk) :
    (jumpCSlot .jumpCRelative t).op = CmdqCode.jumpCRelative.val ∧
    (jumpCSlot .jumpCAbsolute t).op = CmdqCode.jumpCAbsolute.val ∧
    CmdqCode.jumpCAbsolute.val <<< 24 ||| (jumpCSlot .jumpCRelative t).hi % 2 ^ 24 =
      (jumpCSlot .jumpCAbsolute t).hi := by
  obtain ⟨hargB, hargC⟩ := htypes
  simp only [jumpCSlot, Slot.op]
  rcases Nat.le_one_iff_eq_zero_or_eq_one.mp hargB with hb | hb <;>
    rcases Nat.le_one_iff_eq_zero_or_eq_one.mp hargC with hc | hc <;>
    rw [hb, hc] <;> cases t.condition <;> decide

theorem CmdqRec.getVaByOffset_eq {i : ℕ} (h : CmdqRec) (hi : i < 480 * h.nbuf) :
    h.getVaByOffset (cmdqInstSize * i) = some i := by
  have hlt : cmdqInstSize * i < h.bufSize := by
    simp only [bufSize, cmdqCmdBufferSize_eq, cmdqInstSize]
    omega
  rw [getVaByOffset, if_pos hlt, Nat.mul_div_cancel_left i (by decide)]

/-- The jump of a conditional jump stands behind a link jump, if there is one. -/
theorem jumpPos_eq (hfits : cmdqInstSize * (q + 2) < 2 ^ 32) :
    (if u32 ((cmdqInstSize * q : ℕ) + cmdqInstSize * 2) % cmdqCmdBufferSize = 0
      then u32 ((cmdqInstSize * q : ℕ) + cmdqInstSize * 2)
      else u32 ((cmdqInstSize * q : ℕ) + cmdqInstSize)) =
        cmdqInstSize * if (q + 2) % 480 = 0 then q + 2 else q + 1 := by
  have htwo : u32 ((cmdqInstSize * q : ℕ) + cmdqInstSize * 2) = 8 * (q + 2) := by
    simp only [cmdqInstSize, u32] at *
    omega
  have hone : u32 ((cmdqInstSize * q : ℕ) + cmdqInstSize) = 8 * (q + 1) := by
    simp only [cmdqInstSize, u32] at *
    omega
  have hlink : 8 * (q + 2) % cmdqCmdBufferSize = 0 ↔ (q + 2) % 480 = 0 := by
    simp only [cmdqCmdBufferSize_eq]
    omega
  simp only [htwo, hone, hlink, mul_ite]
  rfl

/-- The jump whose load is at the word `q` is rewritten. -/
theorem CmdqRec.rewriteJumpC_eq (h : CmdqRec) (hnotTimer : h.timerLoop = false) {q va e pos : ℕ}
    (hva : h.getVaByOffset (cmdqInstSize * q) = some q)
    (hpos : (if u32 ((cmdqInstSize * q : ℕ) + cmdqInstSize * 2) % cmdqCmdBufferSize = 0
      then u32 ((cmdqInstSize * q : ℕ) + cmdqInstSize * 2)
      else u32 ((cmdqInstSize * q : ℕ) + cmdqInstSize)) = pos)
    (hvaJump : h.getVaByOffset pos = some va)
    (hload : h.slots[q]? = some (loadSlot dummyAddress))
    (hop : (h.slotAt env va).op = CmdqCode.jumpCRelative.val) (hlt : q < e)
    (hfits : cmdqInstSize * e < 2 ^ 32) :
    h.rewriteJumpC env (cmdqInstSize * q) (cmdqInstSize * e) = h.setSlot q (env.relLoad q e) := by
  have hoffset : u32 ((cmdqInstSize * e : ℕ) - (cmdqInstSize * q : ℕ) - cmdqInstSize) =
      cmdqInstSize * (e - q - 1) := by
    simp only [cmdqInstSize, u32] at *
    omega
  have hslot : h.slotAt env q = loadSlot dummyAddress := by simp [slotAt, hload]
  have hlogic : (loadSlot dummyAddress).op = CmdqCode.logic.val := by decide
  simp only [rewriteJumpC, cmdqOpRewriteJumpC, hnotTimer, Bool.false_eq_true, if_false,
    hva, hpos, hvaJump, hslot, hop, hlogic, hoffset]
  simp [RecEnv.relLoad, loadSlot, dummyAddress, Except.toOption]

/-- The first node of a stack is no `else` node. -/
def ElseFree : List CmdqStackNode → Prop
  | [] => True
  | node :: _ => node.stackType ≠ .elseNode

/-- The first node of a stack is a `while` node. -/
def LoopTop : List CmdqStackNode → Prop
  | [] => True
  | node :: _ => node.stackType = .whileNode

theorem endIfLoop_of_elseFree (env : RecEnv) (h : CmdqRec) (hcount : count ≤ 0)
    (hbase : ElseFree base) : (endIfLoop env h count base).1 = h.withIf base := by
  cases base with
  | nil => rfl
  | cons node rest =>
    have hstop : node.stackType = .ifNode ∧ count ≤ 0 ∨
        node.stackType ≠ .ifNode ∧ node.stackType ≠ .elseNode := by
      by_cases hif : node.stackType = .ifNode
      · exact Or.inl ⟨hif, hcount⟩
      · exact Or.inr ⟨hif, hbase⟩
    rw [endIfLoop, if_pos hstop]
    rfl

/-- The end of a loop without a break takes its own node. -/
theorem endWhileLoop_of_loopTop (env : RecEnv) (h : CmdqRec) (e : ℕ) (hcount : count ≤ 0)
    (hbase : LoopTop base) :
    ∃ status, endWhileLoop env h e count base = .ok (h.withWhile base, status) := by
  cases base with
  | nil => exact ⟨-1, rfl⟩
  | cons node nodes =>
    have htop : node.stackType = .whileNode := hbase
    refine ⟨0, ?_⟩
    simp only [endWhileLoop, htop, if_pos hcount]
    rfl

end Rewrite

end Mt8169.Mdp
