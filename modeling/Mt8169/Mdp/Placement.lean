import Mt8169.Mdp.Absolute
import Mt8169.Mdp.PacketFill

/-!
# The targets of a block at any fill level

A block may start at any word of a packet and reach over several buffers. The recorder corrects the
positions it keeps by tests on the size of the packet. These are right for all fill levels but two:
at the start of an empty packet, where the position is moved although nothing will move the block,
and for an empty `if` whose jump fills a buffer, where the jump is looked for at a place it has not
moved to yet.
-/

namespace Mt8169.Mdp

open Cmdq MachineInt CmdqRec RecEnv List

variable {env : RecEnv} {h h' : CmdqRec} {n count k i : ℕ} {instrs : List Slot} {saved : List ℕ}
  {ifs whiles base : List CmdqStackNode} {t : Test}

/-- A packet with that many instructions is addressed by 32-bit offsets. -/
def FitsPacket (count : ℕ) : Prop := cmdqCmdBufferSize * (count / 479 + 1) < 2 ^ 32

theorem Filled.fits (hf : Filled h) (hfits : FitsPacket count) (hle : h.instrCount ≤ count) :
    cmdqCmdBufferSize * h.nbuf < 2 ^ 32 := by
  have hnbuf := hf.nbuf_le
  simp only [FitsPacket, cmdqCmdBufferSize_eq] at *
  omega

theorem FitsPacket.place (hfits : FitsPacket count) (hk : k ≤ count) :
    cmdqInstSize * (placeOf k + 2) < 2 ^ 32 := by
  simp only [FitsPacket, cmdqCmdBufferSize_eq, cmdqInstSize, placeOf] at *
  omega

/-- A live handle whose packet consists of the instructions `instrs` from the instruction `n`
on, with its saved positions and its stacks. -/
structure Stage (env : RecEnv) (h : CmdqRec) (n : ℕ) (instrs : List Slot) (saved : List ℕ)
    (ifs whiles : List CmdqStackNode) : Prop where
  live : Live h
  holds : Holds env h n instrs
  saved : h.replaceInstr = saved
  ifs : h.ifStackNode = ifs
  whiles : h.whileStackNode = whiles

section Steps

variable (hs : Stage env h n instrs saved ifs whiles)
include hs

theorem Stage.append (slot : Slot) :
    Stage env (h.append env slot) n (instrs ++ [slot]) saved ifs whiles := by
  have hlive := hs.live.append env slot
  have hholds := hs.holds.append slot
  obtain ⟨slots, nbuf, heq⟩ := h.append_frame env slot
  rw [heq] at hlive hholds ⊢
  exact ⟨hlive, hholds, hs.saved, hs.ifs, hs.whiles⟩

theorem Stage.appendWords (words : List Slot) :
    ∃ h', Mdp.appendWords env words h = .ok h' ∧
      Stage env h' n (instrs ++ words) saved ifs whiles := by
  rw [hs.live.appendWords]
  refine ⟨_, rfl, ?_⟩
  induction words generalizing h instrs with
  | nil => rwa [append_nil]
  | cons word words ih =>
    rw [append_cons]
    exact ih (hs.append word)

theorem Stage.withStacks (saved' : List ℕ) (ifs' whiles' : List CmdqStackNode) :
    Stage env { h with
      replaceInstr := saved', ifStackNode := ifs', whileStackNode := whiles' } n instrs saved' ifs'
      whiles' := by
  obtain ⟨hlive, hholds, -, -, -⟩ := hs
  exact ⟨{ hlive with },
    { hholds with filled := ⟨hholds.filled.room, hholds.filled.fill⟩ }, rfl, rfl, rfl⟩

theorem Stage.save (hpos : 0 < instrs.length) (hfits : FitsPacket count)
    (hle : n + instrs.length ≤ count) :
    Stage env (h.saveOpVariablePosition h.jumpIdx) n instrs
      (saved ++ [placeOf (n + instrs.length - 1)]) ifs whiles := by
  have hcount := hs.holds.count
  have hidx := hs.holds.filled.jumpIdx (hs.holds.filled.fits hfits (by omega)) (by omega)
  rw [hcount] at hidx
  obtain ⟨-, -, rfl, rfl, rfl⟩ := id hs
  rw [saveOpVariablePosition, hidx]
  exact hs.withStacks _ _ _

theorem Stage.withIf (nodes : List CmdqStackNode) :
    Stage env (h.withIf nodes) n instrs saved nodes whiles := by
  obtain ⟨-, -, rfl, -, rfl⟩ := id hs
  exact hs.withStacks _ _ _

theorem Stage.withWhile (nodes : List CmdqStackNode) :
    Stage env (h.withWhile nodes) n instrs saved ifs nodes := by
  obtain ⟨-, -, rfl, rfl, -⟩ := id hs
  exact hs.withStacks _ _ _

theorem Stage.setSlot {j : ℕ} (hj : j + 1 < instrs.length) (slot : Slot) :
    Stage env (h.setSlot (placeOf (n + j)) slot) n (instrs.set j slot) saved ifs whiles := by
  have hholds := hs.holds.setSlot hj slot
  obtain ⟨hlive, -, hsaved, hifs, hwhiles⟩ := hs
  exact ⟨{ hlive with room := hholds.filled.room }, hholds, hsaved, hifs, hwhiles⟩

theorem Stage.appendJumpC (htypes : t.TypesOk) (hfits : FitsPacket count)
    (hle : n + instrs.length + 2 ≤ count) :
    ∃ h', cmdqAppendJumpCCommand env h t.argB t.condition t.argC = .ok h' ∧
      Stage env h' n (instrs ++ [loadSlot dummyAddress, jumpCSlot .jumpCRelative t])
        (saved ++ [placeOf (n + instrs.length + 1)]) ifs whiles := by
  have hnext := (hs.append (loadSlot dummyAddress)).append (jumpCSlot .jumpCRelative t)
  rw [append_assoc, singleton_append] at hnext
  have hlen : (instrs ++ [loadSlot dummyAddress, jumpCSlot .jumpCRelative t]).length =
      instrs.length + 2 := by simp
  have hsave := hnext.save (by omega) hfits (by omega)
  rw [hlen] at hsave
  exact ⟨_, hs.live.appendJumpC htypes.1 htypes.2, hsave⟩

end Steps

/-- The word that is kept as the start of a block at the instruction `n`. -/
def backOf (n : ℕ) : ℕ := if n = 0 then 1 else placeOf n

theorem Filled.logicPos (hf : Filled h) (hcount : h.instrCount = n) (hfits : FitsPacket count)
    (hle : n ≤ count) : cmdqOpCheckLogicPos (u32 h.cmdBufSize) = cmdqInstSize * backOf n := by
  rw [hf.checkLogicPos (hf.fits hfits (by omega)), hcount, backOf]

section

variable (hs : Stage env h n [] saved ifs whiles) (htypes : t.TypesOk) (hfits : FitsPacket count)
  (hle : n + 2 ≤ count)
include hs htypes hfits hle

/-- Both kinds of blocks start with a conditional jump, and with a node on their stack. -/
theorem Stage.opBlock :
    (∃ h', cmdqOpIf env h t.argB t.condition t.argC = .ok h' ∧
      Stage env h' n [loadSlot dummyAddress, jumpCSlot .jumpCRelative t]
        (saved ++ [placeOf (n + 1)]) (node .ifNode (backOf n) :: ifs) whiles) ∧
    ∃ h', cmdqOpWhile env h t.argB t.condition t.argC = .ok h' ∧
      Stage env h' n [loadSlot dummyAddress, jumpCSlot .jumpCRelative t]
        (saved ++ [placeOf (n + 1)]) ifs (node .whileNode (backOf n) :: whiles) := by
  obtain ⟨h1, hjump, hs1⟩ := hs.appendJumpC htypes hfits (by simpa using hle)
  have hpos := hs.holds.filled.logicPos hs.holds.count hfits (by simp; omega)
  constructor
  · refine ⟨_, ?_, hs1.withIf (node .ifNode (backOf n) :: ifs)⟩
    simp only [cmdqOpIf, hjump, hpos, bind, Except.bind, hs1.ifs]
    rfl
  · refine ⟨_, ?_, hs1.withWhile (node .whileNode (backOf n) :: whiles)⟩
    simp only [cmdqOpWhile, hjump, hpos, bind, Except.bind, hs1.whiles]
    rfl

end

/-- The word that the jump of a block leads to. The block starts at the instruction `n` and
has `r` instructions behind its jump. -/
def exitOf (n r : ℕ) : ℕ :=
  if n = 0 ∨ r = 0 ∧ (n + 1) % 479 = 0 then placeOf n + 9 else placeOf (n + 1 + r) + 1

theorem jumpPos_placeOf (hfits : cmdqInstSize * (placeOf n + 2) < 2 ^ 32) :
    (if u32 ((cmdqInstSize * placeOf n : ℕ) + cmdqInstSize * 2) % cmdqCmdBufferSize = 0
      then u32 ((cmdqInstSize * placeOf n : ℕ) + cmdqInstSize * 2)
      else u32 ((cmdqInstSize * placeOf n : ℕ) + cmdqInstSize)) =
        cmdqInstSize * placeOf (n + 1) := by
  have hlink : (placeOf n + 2) % 480 = 0 ↔ (n + 1) % 479 = 0 := by
    unfold placeOf
    omega
  simp only [jumpPos_eq hfits, hlink, placeOf_succ]

theorem RecEnv.relLoad_dummy (env : RecEnv) (hshift : env.gceShiftBit = 3) (i : ℕ) :
    env.relLoad i (i + 9) = loadSlot dummyAddress := by
  have hsub : i + 9 - i - 1 = 8 := by omega
  rw [relLoad, cmdqRegShiftAddr, hshift, hsub]
  rfl

section Rewrite

variable {rest : List Slot}
  (hs : Stage env h n (loadSlot dummyAddress :: jumpCSlot .jumpCRelative t :: rest) saved ifs
    whiles)
  (htypes : t.TypesOk)
include hs htypes

theorem Stage.jump_op (hplace : rest ≠ [] ∨ (n + 1) % 479 ≠ 0) :
    (h.slotAt env (placeOf (n + 1))).op = CmdqCode.jumpCRelative.val ∧
      placeOf (n + 1) < 480 * h.nbuf := by
  have hcount := hs.holds.count
  have hroom := hs.holds.filled.room
  have hfill := hs.holds.filled.fill
  have hone : 1 < (loadSlot dummyAddress :: jumpCSlot .jumpCRelative t :: rest).length := by simp
  have hplace' : 1 + 1 < (loadSlot dummyAddress :: jumpCSlot .jumpCRelative t :: rest).length ∨
      h.slots.length < 480 * h.nbuf := by
    simp only [instrCount, length_cons] at hcount ⊢
    rcases hplace with hne | hmod
    · have := length_pos_of_ne_nil hne
      omega
    · omega
  have hget := hs.holds.getElem hone hplace'
  have hlt := hs.holds.placeOf_lt_length hone hplace'
  refine ⟨?_, by omega⟩
  rw [slotAt, hget]
  exact (jumpCSlot_hi htypes).1

/-- The rewrite sets the target of the load at the head of a block. -/
theorem Stage.rewriteJumpC_eq (hplace : rest ≠ [] ∨ (n + 1) % 479 ≠ 0) {e : ℕ}
    (hlt : placeOf n + 1 < e) (hfits : cmdqInstSize * e < 2 ^ 32) :
    h.rewriteJumpC env (cmdqInstSize * placeOf n) (cmdqInstSize * e) =
      h.setSlot (placeOf n) (env.relLoad (placeOf n) e) := by
  obtain ⟨hop, hin⟩ := hs.jump_op htypes hplace
  have hmono : placeOf n < placeOf (n + 1) := placeOf_lt (by omega)
  have hload := hs.holds.instr 0 (by simp)
  refine h.rewriteJumpC_eq hs.live.notTimer (h.getVaByOffset_eq (by omega)) (jumpPos_placeOf ?_)
    (h.getVaByOffset_eq hin) hload hop (by omega) hfits
  simp only [cmdqInstSize] at *
  omega

/-- In an empty packet, the rewrite finds the wrong word and does nothing. -/
theorem Stage.rewriteJumpC_empty (hzero : n = 0) (pos : ℕ) :
    h.rewriteJumpC env (cmdqInstSize * 1) pos = h := by
  subst hzero
  obtain ⟨hop, hin⟩ := hs.jump_op htypes (Or.inr (by decide))
  have hva := h.getVaByOffset_eq hin
  have hne : (h.slotAt env 1).op ≠ CmdqCode.logic.val := by
    have hop' : (h.slotAt env 1).op = CmdqCode.jumpCRelative.val := hop
    rw [hop']
    decide
  have hva' : h.getVaByOffset (cmdqInstSize * 1) = some 1 := hva
  simp only [rewriteJumpC, cmdqOpRewriteJumpC, hs.live.notTimer, Bool.false_eq_true,
    if_false, hva', hne, ne_eq, not_false_iff, true_or, if_true]
  generalize h.getVaByOffset _ = va
  cases va <;> rfl

omit htypes in
/-- It does nothing either while the jump has still to move. -/
theorem Stage.rewriteJumpC_unmoved (hrest : rest = []) (hmod : (n + 1) % 479 = 0)
    (hfits : cmdqInstSize * (placeOf n + 2) < 2 ^ 32) (pos : ℕ) :
    h.rewriteJumpC env (cmdqInstSize * placeOf n) pos = h := by
  have hcount := hs.holds.count
  have hroom := hs.holds.filled.room
  have hmoved := hs.holds.moved (List.cons_ne_nil _ _)
  subst hrest
  simp only [CmdqRec.instrCount, List.length_cons, List.length_nil] at hcount
  have hin : placeOf n < 480 * h.nbuf := by
    unfold placeOf
    omega
  have hout : h.getVaByOffset (cmdqInstSize * placeOf (n + 1)) = none := by
    refine if_neg ?_
    simp only [CmdqRec.bufSize, cmdqCmdBufferSize_eq, cmdqInstSize, placeOf]
    omega
  simp only [CmdqRec.rewriteJumpC, cmdqOpRewriteJumpC, hs.live.notTimer, Bool.false_eq_true,
    if_false, h.getVaByOffset_eq hin, jumpPos_placeOf hfits, hout]
  rfl

/-- In all cases, the target is the exit that the model says. -/
theorem Stage.rewrite (hshift : env.gceShiftBit = 3) (hfits : FitsPacket count)
    (hle : n + 2 + rest.length ≤ count) :
    Stage env (h.rewriteJumpC env (cmdqInstSize * backOf n) h.nextPos) n
      (env.relLoad (placeOf n) (exitOf n rest.length) :: jumpCSlot .jumpCRelative t :: rest)
      saved ifs whiles := by
  have hcount : h.instrCount = n + (rest.length + 1 + 1) := hs.holds.count
  have hnext := hs.holds.filled.nextPos (hs.holds.filled.fits hfits (by omega)) (by omega)
  have hlast : h.instrCount - 1 = n + 1 + rest.length := by omega
  rw [hlast] at hnext
  rw [hnext, backOf, exitOf]
  by_cases hzero : n = 0
  · rw [if_pos hzero, if_pos (Or.inl hzero), hs.rewriteJumpC_empty htypes hzero,
      env.relLoad_dummy hshift]
    exact hs
  · rw [if_neg hzero]
    by_cases hunmoved : rest.length = 0 ∧ (n + 1) % 479 = 0
    · rw [if_pos (Or.inr hunmoved), env.relLoad_dummy hshift,
        hs.rewriteJumpC_unmoved (eq_nil_of_length_eq_zero hunmoved.1) hunmoved.2
          (hfits.place (by omega))]
      exact hs
    · have hplace : rest ≠ [] ∨ (n + 1) % 479 ≠ 0 := by
        by_cases hrest : rest = []
        · exact Or.inr fun hmod => hunmoved ⟨by rw [hrest]; rfl, hmod⟩
        · exact Or.inl hrest
      have hlt : placeOf n < placeOf (n + 1 + rest.length) := placeOf_lt (by omega)
      have hplaceFits := hfits.place (show n + 1 + rest.length ≤ count by omega)
      rw [if_neg (by tauto), hs.rewriteJumpC_eq htypes hplace (by omega)
        (by simp only [cmdqInstSize] at *; omega)]
      exact hs.setSlot (show 0 + 1 < _ by simp) _

end Rewrite

theorem cmdqOpEndIf_eq {pos : ℕ}
    (hstack : h.ifStackNode = ⟨pos, .ifNode⟩ :: base) (hbase : ElseFree base) :
    (cmdqOpEndIf env h).1 = (h.rewriteJumpC env pos h.nextPos).withIf base := by
  have hgo : ¬((1 : ℤ) ≤ 0) := by decide
  have hstop := endIfLoop_of_elseFree env (h.rewriteJumpC env pos h.nextPos) (le_refl (0 : ℤ))
    hbase
  simp only [cmdqOpEndIf, hstack, endIfLoop, hgo, and_false, ne_eq, not_true_eq_false, false_and,
    or_false, if_false]
  exact hstop

/-- The offset from the word `i` to the word `q`, as a jump holds it. -/
def RecEnv.backOffset (env : RecEnv) (q i : ℕ) : ℕ :=
  u32 (s32 (u32 (cmdqInstSize * q - cmdqInstSize * i : ℤ)) / 2 ^ env.gceShiftBit)

/-- The jump at the word `i` to the word `q`, as it is recorded. -/
def RecEnv.backSlot (env : RecEnv) (q i : ℕ) : Slot where
  hi := CmdqCode.jump.val <<< 24
  lo := env.backOffset q i

theorem RecEnv.revert_backOffset (env : RecEnv) (hshift : env.gceShiftBit = 3) (q i : ℕ) :
    env.cmdqRegRevertAddr (env.backOffset q i) =
      u32 (cmdqInstSize * q - cmdqInstSize * i : ℤ) := by
  have hunit : (cmdqInstSize * q - cmdqInstSize * i : ℤ) % 8 = 0 := by
    simp only [cmdqInstSize]
    omega
  rw [cmdqRegRevertAddr, backOffset, u32_u32_mul, hshift, u32_s32_shift hunit]

/-- `cmdq_op_continue` in a loop jumps to the word that is kept for the loop. -/
theorem Stage.opContinue {q : ℕ}
    (hs : Stage env h n instrs saved ifs (node .whileNode q :: whiles))
    (hpos : 0 < n + instrs.length) (hfits : FitsPacket count)
    (hle : n + instrs.length + 1 ≤ count) :
    ∃ h', cmdqOpContinue env h = .ok h' ∧
      Stage env h' n (instrs ++ [env.backSlot q (placeOf (n + instrs.length))])
        (saved ++ [placeOf (n + instrs.length)]) ifs (node .whileNode q :: whiles) := by
  have hcount := hs.holds.count
  have hf := hs.holds.filled
  have hsize := hf.fits hfits (show h.instrCount ≤ count by omega)
  have hloop : findLoop h.whileStackNode = some (node .whileNode q) := by
    rw [hs.whiles]
    rfl
  -- the offset is corrected for the move of the jump itself
  have hoffset : u32 (if u32 ((cmdqInstSize * h.slots.length : ℕ) + cmdqInstSize) %
        cmdqCmdBufferSize = 0 ∨ cmdqInstSize * h.slots.length % cmdqCmdBufferSize = 0
      then s32 ((cmdqInstSize * q : ℕ) - (cmdqInstSize * h.slots.length : ℕ)) - cmdqInstSize
      else s32 ((cmdqInstSize * q : ℕ) - (cmdqInstSize * h.slots.length : ℕ))) =
        u32 (cmdqInstSize * q - cmdqInstSize * placeOf (n + instrs.length) : ℤ) := by
    simp only [hf.boundary_iff hsize]
    rw [← hcount, hf.placeOf_instrCount (by omega)]
    split <;> simp only [cmdqInstSize, u32, s32] <;> omega
  have hsave := (hs.append (env.backSlot q (placeOf (n + instrs.length)))).save
    (by simp) hfits (by rw [length_append, length_singleton]; omega)
  rw [length_append, length_singleton, ← Nat.add_assoc, Nat.add_sub_cancel] at hsave
  refine ⟨_, ?_, hsave⟩
  simp only [cmdqOpContinue, hf.u32_cmdBufSize hsize, hloop, node, if_true]
  rw [hoffset, hs.live.appendJump]
  rfl

theorem cmdqOpEndWhile_eq {pos : ℕ} (hcontinue : cmdqOpContinue env h = .ok h')
    (hstack : h'.whileStackNode = ⟨pos, .whileNode⟩ :: base) (hbase : LoopTop base) :
    ∃ status, cmdqOpEndWhile env h =
      .ok ((h'.rewriteJumpC env pos h'.nextPos).withWhile base, status) := by
  have hgo : ¬((1 : ℤ) ≤ 0) := by decide
  obtain ⟨status, hstop⟩ := endWhileLoop_of_loopTop env (h'.rewriteJumpC env pos h'.nextPos)
    h'.nextPos (le_refl (0 : ℤ)) hbase
  refine ⟨status, ?_⟩
  simp only [cmdqOpEndWhile, hcontinue, bind, Except.bind, hstack, endWhileLoop, hgo, if_false]
  exact hstop

/-- The kinds of blocks. -/
inductive BlockKind where
  | ifBlock | whileBlock
  deriving DecidableEq, Repr

variable (kind : BlockKind)

/-- A block of either kind. -/
def BlockKind.code (t : Test) (body : List Slot) : Code .stmt :=
  match kind with
  | .ifBlock => .cond t (.cmd body) .endIf
  | .whileBlock => .loop t (.cmd body)

/-- The number of instructions of a block behind its conditional jump. -/
def BlockKind.rest (m : ℕ) : ℕ :=
  match kind with
  | .ifBlock => m
  | .whileBlock => m + 1

/-- The jump back of a loop with `m` instructions. -/
def BlockKind.back (env : RecEnv) (kind : BlockKind) (n m : ℕ) : List Slot :=
  match kind with
  | .ifBlock => []
  | .whileBlock => [env.backSlot (backOf n) (placeOf (n + 2 + m))]

/-- The positions that a block saves. -/
def BlockKind.marks (n m : ℕ) : List ℕ :=
  match kind with
  | .ifBlock => [placeOf (n + 1)]
  | .whileBlock => [placeOf (n + 1), placeOf (n + 2 + m)]

theorem BlockKind.length_back (n : ℕ) (body : List Slot) :
    (body ++ kind.back env n body.length).length = kind.rest body.length := by
  cases kind <;> simp [back, rest]

/-- A block is compiled to its load, its jump and its body. -/
theorem Stage.block (hs : Stage env h n [] saved ifs whiles) (hshift : env.gceShiftBit = 3)
    (htypes : t.TypesOk) (hifs : ElseFree ifs) (hwhiles : LoopTop whiles) (kind : BlockKind)
    (body : List Slot) (hfits : FitsPacket count) (hle : n + 2 + kind.rest body.length ≤ count) :
    ∃ h', (kind.code t body).compile env h = .ok h' ∧
      Stage env h' n (env.relLoad (placeOf n) (exitOf n (kind.rest body.length)) ::
        jumpCSlot .jumpCRelative t :: (body ++ kind.back env n body.length))
        (saved ++ kind.marks n body.length) ifs whiles := by
  cases kind with
  | ifBlock =>
    simp only [BlockKind.rest] at hle
    obtain ⟨h1, hopIf, hs1⟩ := (hs.opBlock htypes hfits (by omega)).1
    obtain ⟨h2, hbody, hs2⟩ := hs1.appendWords body
    have hs3 := (hs2.rewrite htypes hshift hfits hle).withIf ifs
    refine ⟨_, ?_, by simpa only [BlockKind.rest, BlockKind.back, append_nil,
      BlockKind.marks, append_eq, nil_append] using hs3⟩
    simp only [BlockKind.code, Code.compile, hopIf, hbody, bind, Except.bind,
      cmdqOpEndIf_eq hs2.ifs hifs]
  | whileBlock =>
    simp only [BlockKind.rest] at hle
    obtain ⟨h1, hopWhile, hs1⟩ := (hs.opBlock htypes hfits (by omega)).2
    obtain ⟨h2, hbody, hs2⟩ := hs1.appendWords body
    obtain ⟨h3, hcontinue, hs3⟩ := hs2.opContinue (by simp) hfits
      (by simp only [length_append, length_cons, length_nil]; omega)
    have hlen : n + ([loadSlot dummyAddress, jumpCSlot .jumpCRelative t] ++ body).length =
        n + 2 + body.length := by
      simp only [length_append, length_cons, length_nil]
      omega
    rw [hlen, append_assoc, cons_append, cons_append, nil_append] at hs3
    have hs4 := (hs3.rewrite htypes hshift hfits
      (by rw [length_append, length_singleton]; omega)).withWhile whiles
    obtain ⟨status, hend⟩ := cmdqOpEndWhile_eq hcontinue hs3.whiles hwhiles
    refine ⟨_, ?_, by simpa only [BlockKind.rest, BlockKind.back, BlockKind.marks,
      length_append, length_cons, length_nil, Nat.zero_add, append_assoc,
      cons_append, nil_append] using hs4⟩
    simp only [BlockKind.code, Code.compile, hopWhile, hbody, bind, Except.bind, hend]

theorem Ready.jumpCLogic_link {k i q : ℕ} (hr : Ready k h) (hq : q + 2 < 480 * (k + 1))
    (hlink : h.slots[q + 1]? = some (env.linkSlot i)) :
    Mdp.jumpCLogic env h (q + 2) = some (q, true) := by
  have hfits := hr.fits
  have hnbuf := hr.nbuf
  have hone : u32 (((q + 2 : ℕ) - 1 : ℤ) * cmdqInstSize) = cmdqInstSize * (q + 1) := by
    simp only [cmdqCmdBufferSize_eq, cmdqInstSize, u32] at *
    omega
  have htwo : u32 (((q + 2 : ℕ) - 2 : ℤ) * cmdqInstSize) = cmdqInstSize * q := by
    simp only [cmdqCmdBufferSize_eq, cmdqInstSize, u32] at *
    omega
  have hat : (h.slotAt env (q + 1)).hi = CmdqCode.jump.val <<< 24 ||| 1 := by
    rw [slotAt, hlink, Option.getD_some]
    rfl
  simp only [Mdp.jumpCLogic, hone, htwo, h.getVaByOffset_eq (show q + 1 < 480 * h.nbuf by omega),
    h.getVaByOffset_eq (show q < 480 * h.nbuf by omega), Option.bind_eq_bind, Option.bind_some,
    if_pos hat]

theorem SameFrom.getElem {q : ℕ} (hsame : SameFrom q h h') (hi : q ≤ i) :
    h'.slots[i]? = h.slots[i]? := by
  obtain ⟨slots, rfl, -, hdrop⟩ := hsame
  have hget : ∀ l : List Slot, l[i]? = (l.drop q)[i - q]? := by
    intro l
    rw [getElem?_drop, Nat.add_sub_cancel' hi]
  show slots[i]? = h.slots[i]?
  rw [hget slots, hget h.slots, hdrop]

theorem CmdqRec.getElem_setSlot_ne (h : CmdqRec) {i j : ℕ} (hne : i ≠ j) (slot : Slot) :
    (h.setSlot i slot).slots[j]? = h.slots[j]? := getElem?_set_ne hne

theorem CmdqRec.getElem_setSlot_self (h : CmdqRec) (hi : i < h.slots.length) (slot : Slot) :
    (h.setSlot i slot).slots[i]? = some slot := getElem?_set_self hi

theorem CmdqRec.length_setSlot (h : CmdqRec) (i : ℕ) (slot : Slot) :
    (h.setSlot i slot).slots.length = h.slots.length := length_set

section Replace

variable {e : ℕ} {rest : List Slot}
  (hs : Stage env h n (env.relLoad (placeOf n) e :: jumpCSlot .jumpCRelative t :: rest) saved ifs
    whiles)
  (hrest : rest ≠ [])
include hs hrest

/-- The two words at the head of a block are at their places. -/
theorem Stage.branch_words :
    h.slots[placeOf n]? = some (env.relLoad (placeOf n) e) ∧
      h.slots[placeOf (n + 1)]? = some (jumpCSlot .jumpCRelative t) ∧
      placeOf (n + 1) < h.slots.length := by
  have hpos := length_pos_of_ne_nil hrest
  have hlen : 1 + 1 < (env.relLoad (placeOf n) e :: jumpCSlot .jumpCRelative t :: rest).length := by
    simp only [length_cons]
    omega
  exact ⟨hs.holds.instr 0 (by omega), hs.holds.instr 1 hlen,
    hs.holds.placeOf_lt_length (by omega) (Or.inl hlen)⟩

theorem Stage.ready (hfits : FitsPacket count)
    (hle : n + 2 + rest.length ≤ count) : Ready (h.nbuf - 1) h := by
  have hcount : h.instrCount = n + (rest.length + 1 + 1) := hs.holds.count
  have hsize := hs.holds.filled.fits hfits (show h.instrCount ≤ count by omega)
  have hroom := hs.holds.filled.room
  have hlt := (hs.branch_words hrest).2.2
  have hnbuf : h.nbuf = h.nbuf - 1 + 1 := by omega
  exact ⟨hnbuf, by rwa [← hnbuf], hs.live.notTimer, hs.live.jumpReplace, hs.live.changeJump,
    hs.live.notFinalized⟩

section

variable (hsame : SameFrom (placeOf n) h h') (hr : Ready k h') (hk : h.nbuf = k + 1)
include hsame hr hk

theorem Stage.jumpCLogic :
    ∃ revised : Bool, Mdp.jumpCLogic env h' (placeOf (n + 1)) = some (placeOf n, revised) ∧
      placeOf (n + 1) = placeOf n + 1 + revised.toNat := by
  obtain ⟨hload, -, hlt⟩ := hs.branch_words hrest
  have hroom := hs.holds.filled.room
  have hsucc := placeOf_succ n
  split at hsucc
  · next hmod =>
    refine ⟨true, ?_, hsucc⟩
    have hlink := hs.holds.link ((n + 1) / 479) (by unfold placeOf; omega)
      (by unfold placeOf at hlt; omega)
    have hplace : 480 * ((n + 1) / 479) - 1 = placeOf n + 1 := by
      unfold placeOf
      omega
    rw [hplace, ← hsame.getElem (Nat.le_succ _)] at hlink
    rw [hsucc]
    exact hr.jumpCLogic_link (by omega) hlink
  · refine ⟨false, ?_, hsucc⟩
    rw [← hsame.getElem (le_refl _)] at hload
    rw [hsucc]
    exact hr.jumpCLogic env (by omega) hload

/-- The conditional jump of the block becomes absolute. -/
theorem Stage.replaceOne_branch (hshift : env.gceShiftBit = 3) (htypes : t.TypesOk)
    (hlt : placeOf n < e) (he : e < 480 * h.nbuf) (hne : env.slotPa e ≠ 0) :
    replaceOne env h' (placeOf (n + 1)) =
      (h'.setSlot (placeOf n) (loadSlot (env.cmdqRegShiftAddr (env.slotPa e) % 2 ^ 32))).setSlot
        (placeOf (n + 1)) (jumpCSlot .jumpCAbsolute t) := by
  obtain ⟨hload, hjump, hin⟩ := hs.branch_words hrest
  obtain ⟨revised, hlogic, hva⟩ := hs.jumpCLogic hrest hsame hr hk
  have hroom := hs.holds.filled.room
  rw [← hsame.getElem (le_refl _)] at hload
  rw [← hsame.getElem (placeOf_le (Nat.le_succ n))] at hjump
  have hat : h'.slotAt env (placeOf (n + 1)) = jumpCSlot .jumpCRelative t := by
    rw [slotAt, hjump, Option.getD_some]
  have hop := (jumpCSlot_hi htypes).1
  have hcode : CmdqCode.jumpCRelative.val ≠ CmdqCode.jump.val := by decide
  rw [hr.replaceOne_eq env (by omega), hat, hop, if_neg hcode, if_pos rfl]
  exact hr.replaceJumpc hlogic hva hload hjump htypes
    (env.revert_relLoad (by omega) hlt) (by omega) hne

end

theorem Stage.replaceLoop_branch {before positions : List ℕ}
    (hpositions : saved = before ++ placeOf (n + 1) :: positions)
    (hbefore : ∀ m ∈ before, m < placeOf n) (hshift : env.gceShiftBit = 3) (htypes : t.TypesOk)
    (hfits : FitsPacket count) (hle : n + 2 + rest.length ≤ count) (hlt : placeOf n < e)
    (he : e < 480 * h.nbuf) (hne : env.slotPa e ≠ 0) :
    ∃ h', cmdqCoreReplaceV3Instr env h = replaceLoop env h' positions ∧
      Ready (h.nbuf - 1) h' ∧ h'.slots.length = h.slots.length ∧
      h'.slots[placeOf n]? =
        some (loadSlot (env.cmdqRegShiftAddr (env.slotPa e) % 2 ^ 32)) ∧
      h'.slots[placeOf (n + 1)]? = some (jumpCSlot .jumpCAbsolute t) ∧
      ∀ j, placeOf (n + 1) < j → h'.slots[j]? = h.slots[j]? := by
  have hr := hs.ready hrest hfits hle
  have hnbuf := hr.nbuf
  have hroom := hs.holds.filled.room
  have hin := (hs.branch_words hrest).2.2
  have hstep : placeOf n < placeOf (n + 1) := placeOf_lt (Nat.lt_succ_self n)
  obtain ⟨h1, hsame, hgo⟩ := hr.replaceLoop_before env hbefore (by omega) (by omega)
    (placeOf (n + 1) :: positions)
  have hlen := hsame.length
  have hreplace : cmdqCoreReplaceV3Instr env h =
      replaceLoop env (replaceOne env h1 (placeOf (n + 1))) positions := by
    rw [cmdqCoreReplaceV3Instr, hs.saved, hpositions, hgo, replaceLoop_cons env (by omega)]
  rw [hs.replaceOne_branch hrest hsame (hsame.ready hr) hnbuf hshift htypes hlt he hne] at hreplace
  refine ⟨_, hreplace, ((hsame.ready hr).setSlot _ _).setSlot _ _, ?_, ?_, ?_, ?_⟩
  · rw [length_setSlot, length_setSlot, hlen]
  · rw [getElem_setSlot_ne _ (by omega), getElem_setSlot_self _ (by omega)]
  · rw [getElem_setSlot_self _ (by rw [length_setSlot]; omega)]
  · intro j hj
    rw [getElem_setSlot_ne _ (by omega), getElem_setSlot_ne _ (by omega), hsame.getElem (by omega)]

end Replace

/-- The jump back becomes absolute. -/
theorem Ready.replaceOne_back {k i q : ℕ} (hr : Ready k h) (hshift : env.gceShiftBit = 3)
    (hslot : h.slots[i]? = some (env.backSlot q i)) (hi : i < 480 * (k + 1))
    (hq : q < 480 * (k + 1)) :
    replaceOne env h i = h.setSlot i ⟨CmdqCode.jump.val <<< 24 ||| 1,
      env.cmdqRegShiftAddr (env.slotPa q) % 2 ^ 32⟩ := by
  have hop : (h.slotAt env i).op = CmdqCode.jump.val := by
    rw [slotAt, hslot, Option.getD_some]
    show CmdqCode.jump.val <<< 24 / 2 ^ 24 = _
    decide
  rw [hr.replaceOne_eq env hi, if_pos hop]
  exact hr.adjustJump hslot (env.revert_backOffset hshift q i) hq

/-- The word `i` holds an instruction, or it is the link jump to that instruction. -/
def FollowsAt (env : RecEnv) (slots : List Slot) (i : ℕ) (slot : Slot) : Prop :=
  slots[i]? = some slot ∨ (i + 1) % 480 = 0 ∧
    slots[i]? = some (env.linkSlot ((i + 1) / 480)) ∧ slots[i + 1]? = some slot

/-- The words of a block at the instruction `n` that has `r` instructions behind its jump and is
followed by `after`. The jump leads to the word `exit`, and that of a loop back to the word
`back`. -/
structure BlockTargets (env : RecEnv) (slots : List Slot) (kind : BlockKind) (t : Test) (n r : ℕ)
    (after : List Slot) (exit back : ℕ) : Prop where
  load : slots[placeOf n]? = some (loadSlot (env.cmdqRegShiftAddr (env.slotPa exit) % 2 ^ 32))
  jump : slots[placeOf (n + 1)]? = some (jumpCSlot .jumpCAbsolute t)
  loop : kind = .whileBlock → slots[placeOf (n + 1 + r)]? = some ⟨CmdqCode.jump.val <<< 24 ||| 1,
    env.cmdqRegShiftAddr (env.slotPa back) % 2 ^ 32⟩
  next : ∀ slot ∈ after.head?, FollowsAt env slots (placeOf (n + 1 + r) + 1) slot

theorem Holds.followsAt (before : List Slot) {after : List Slot} {m : ℕ}
    (hh : Holds env h n (before ++ after)) (hm : before.length = m + 1) :
    ∀ slot ∈ after.head?, FollowsAt env h.slots (placeOf (n + m) + 1) slot := by
  intro slot hslot
  cases after with
  | nil => simp at hslot
  | cons word words =>
    obtain rfl : word = slot := by simpa using hslot
    have hlen : (before ++ word :: words).length = m + 1 + words.length + 1 := by
      simp only [length_append, length_cons]
      omega
    have hword : (before ++ word :: words)[m + 1]? = some word := by
      rw [getElem?_append_right (by omega), hm, Nat.sub_self]
      rfl
    have hcount := hh.count
    have hroom := hh.filled.room
    have hfill := hh.filled.fill
    rw [hlen] at hcount
    unfold instrCount at hcount
    by_cases hlast : words.length = 0 ∧ h.slots.length = 480 * h.nbuf
    · -- the instruction fills the buffer and has not moved
      have hget := hh.last (ne_nil_of_length_pos (by omega))
      have hplace : placeOf (n + m) + 1 = h.slots.length - 1 := by
        unfold placeOf
        omega
      have hend : (before ++ word :: words).length - 1 = m + 1 := by omega
      rw [getLast?_eq_getElem?, getLast?_eq_getElem?, ← hplace, hend, hword] at hget
      exact Or.inl hget
    · have hat := hh.getElem (show m + 1 < _ by omega) (by omega)
      have hlt := hh.placeOf_lt_length (show m + 1 < _ by omega) (by omega)
      have hsucc := placeOf_succ (n + m)
      rw [hword] at hat
      rw [← Nat.add_assoc] at hat hlt
      split at hsucc
      · next hmod =>
        have hplace : 480 * ((placeOf (n + m) + 1 + 1) / 480) - 1 = placeOf (n + m) + 1 := by
          unfold placeOf
          omega
        have hlink := hh.link ((placeOf (n + m) + 1 + 1) / 480) (by unfold placeOf; omega)
          (by unfold placeOf at *; omega)
        rw [hplace] at hlink
        rw [hsucc] at hat
        exact Or.inr ⟨by unfold placeOf; omega, hlink, hat⟩
      · rw [hsucc] at hat
        exact Or.inl hat

theorem FollowsAt.congr {slots slots' : List Slot} {slot : Slot}
    (hsame : ∀ j, i ≤ j → slots'[j]? = slots[j]?) (hfollows : FollowsAt env slots i slot) :
    FollowsAt env slots' i slot := by
  rw [FollowsAt, hsame i (le_refl i), hsame (i + 1) (Nat.le_succ i)]
  exact hfollows

variable {body after : List Slot} {kind : BlockKind}

/-- After the replacement, the jumps of the block lead to its exit and its head. -/
theorem Stage.replaced {e : ℕ}
    (hs : Stage env h n (env.relLoad (placeOf n) e :: jumpCSlot .jumpCRelative t ::
      (body ++ kind.back env n body.length ++ after)) (saved ++ kind.marks n body.length) ifs
      whiles)
    (hafter : after ≠ []) (hshift : env.gceShiftBit = 3) (htypes : t.TypesOk)
    (hfits : FitsPacket count) (hle : n + 2 + kind.rest body.length + after.length ≤ count)
    (hsaved : ∀ m ∈ saved, m < placeOf n) (hlt : placeOf n < e) (he : e < 480 * h.nbuf)
    (hne : env.slotPa e ≠ 0) :
    BlockTargets env (cmdqCoreReplaceV3Instr env h).slots kind t n (kind.rest body.length) after e
      (backOf n) := by
  have hlength : (body ++ kind.back env n body.length).length = kind.rest body.length :=
    kind.length_back n body
  have hrest : body ++ kind.back env n body.length ++ after ≠ [] :=
    append_ne_nil_of_right_ne_nil _ hafter
  have hle' : n + 2 + (body ++ kind.back env n body.length ++ after).length ≤ count := by
    rw [length_append, hlength]
    omega
  have hnext := Holds.followsAt (env.relLoad (placeOf n) e :: jumpCSlot .jumpCRelative t ::
    (body ++ kind.back env n body.length)) (m := 1 + kind.rest body.length) hs.holds
    (by simp only [length_cons, hlength]; omega)
  rw [← Nat.add_assoc] at hnext
  cases kind with
  | ifBlock =>
    obtain ⟨h', hreplace, -, -, hload, hjump, hkeep⟩ :=
      hs.replaceLoop_branch hrest rfl hsaved hshift htypes hfits hle' hlt he hne
    have hmono := placeOf_le (show n + 1 ≤ n + 1 + BlockKind.ifBlock.rest body.length by omega)
    rw [hreplace, replaceLoop]
    exact ⟨hload, hjump, BlockKind.noConfusion,
      fun slot hslot => (hnext slot hslot).congr fun j hj => hkeep j (by omega)⟩
  | whileBlock =>
    obtain ⟨h', hreplace, hr, hlen, hload, hjump, hkeep⟩ :=
      hs.replaceLoop_branch hrest rfl hsaved hshift htypes hfits hle' hlt he hne
    have hplace : n + 1 + BlockKind.whileBlock.rest body.length = n + 2 + body.length := by
      simp only [BlockKind.rest]
      omega
    have hmono := placeOf_lt (show n + 1 < n + 2 + body.length by omega)
    have hroom := hs.holds.filled.room
    have hafterPos := length_pos_of_ne_nil hafter
    -- the jump back is followed by another instruction, so it is at its place
    have hinstrs : 2 + body.length + 1 < (env.relLoad (placeOf n) e ::
        jumpCSlot .jumpCRelative t :: (body ++ BlockKind.whileBlock.back env n body.length ++
          after)).length := by
      simp only [length_cons, length_append, BlockKind.back, length_nil]
      omega
    have hback := hs.holds.instr (2 + body.length) hinstrs
    have hin := hs.holds.placeOf_lt_length (by omega) (Or.inl hinstrs)
    have hslot : (env.relLoad (placeOf n) e :: jumpCSlot .jumpCRelative t ::
        (body ++ BlockKind.whileBlock.back env n body.length ++ after))[2 + body.length]? =
          some (env.backSlot (backOf n) (placeOf (n + 2 + body.length))) := by
      simp [BlockKind.back, Nat.add_comm 2]
    rw [hslot, ← Nat.add_assoc, ← hkeep _ hmono] at hback
    rw [← Nat.add_assoc] at hin
    have hbackLt : backOf n ≤ placeOf (n + 1) := by
      unfold backOf placeOf
      split <;> omega
    have hreplace' : cmdqCoreReplaceV3Instr env h =
        h'.setSlot (placeOf (n + 2 + body.length)) ⟨CmdqCode.jump.val <<< 24 ||| 1,
          env.cmdqRegShiftAddr (env.slotPa (backOf n)) % 2 ^ 32⟩ := by
      rw [hreplace, replaceLoop_cons env (by omega), replaceLoop,
        hr.replaceOne_back hshift hback (by omega) (by omega)]
    have hstep : placeOf n < placeOf (n + 1) := placeOf_lt (Nat.lt_succ_self n)
    rw [hplace] at hnext
    rw [hreplace']
    refine ⟨?_, ?_, fun _ => ?_, fun slot hslot => ?_⟩
    · rw [getElem_setSlot_ne _ (by omega), hload]
    · rw [getElem_setSlot_ne _ (by omega), hjump]
    · rw [hplace, getElem_setSlot_self _ (by omega)]
    · rw [hplace]
      refine (hnext slot hslot).congr fun j hj => ?_
      rw [getElem_setSlot_ne _ (by omega), hkeep j (by omega)]

/-- Different words have different addresses, as the engine is given them. -/
def RecEnv.DistinctAddresses (env : RecEnv) (nbuf : ℕ) : Prop :=
  ∀ i j, i < 480 * nbuf → j < 480 * nbuf →
    env.cmdqRegShiftAddr (env.slotPa i) % 2 ^ 32 = env.cmdqRegShiftAddr (env.slotPa j) % 2 ^ 32 →
      i = j

/-- Where a block can be recorded: on a live handle at any fill level, with jumps saved before it,
in other blocks or none, and with instructions `after` it. -/
structure BlockSite (env : RecEnv) (h : CmdqRec) (kind : BlockKind) (t : Test)
    (body after : List Slot) : Prop where
  shift : env.gceShiftBit = 3
  live : Live h
  filled : Filled h
  saved : ∀ m ∈ h.replaceInstr, m < placeOf h.instrCount
  ifs : ElseFree h.ifStackNode
  whiles : LoopTop h.whileStackNode
  types : t.TypesOk
  followed : after ≠ []
  fits : FitsPacket (h.instrCount + 2 + kind.rest body.length + after.length)
  distinct : env.DistinctAddresses
    ((h.instrCount + 2 + kind.rest body.length + after.length) / 479 + 1)

/-- A block that is recorded and followed by `after` leads where it should: its jump to the word
behind the block, and the jump back of a loop to the instruction that loads the target. -/
def BlockPlaced (env : RecEnv) (h : CmdqRec) (kind : BlockKind) (t : Test)
    (body after : List Slot) : Prop :=
  ∃ h', ((kind.code t body).seq (.cmd after)).compile env h = .ok h' ∧
    BlockTargets env (cmdqCoreReplaceV3Instr env h').slots kind t h.instrCount
      (kind.rest body.length) after (placeOf (h.instrCount + 1 + kind.rest body.length) + 1)
      (placeOf h.instrCount)

/-- The fill levels at which a block with `m` instructions is recorded correctly. -/
def PlacementOk (h : CmdqRec) (kind : BlockKind) (m : ℕ) : Prop :=
  (h.cmdBufSize ≠ 0 ∨ kind = .ifBlock ∧ m = 7) ∧
    ¬(kind = .ifBlock ∧ m = 0 ∧ (h.cmdBufSize + 2 * cmdqInstSize) % cmdqCmdBufferSize = 0)

theorem exitOf_bounds (env : RecEnv) (n r nbuf : ℕ) (hnbuf : placeOf (n + 1 + r) + 1 < 480 * nbuf)
    (hnext : r = 0 → (n + 1) % 479 = 0 → placeOf n + 9 < 480 * nbuf) :
    placeOf n < exitOf n r ∧ exitOf n r < 480 * nbuf ∧ env.slotPa (exitOf n r) ≠ 0 := by
  have hmono : placeOf n < placeOf (n + 1 + r) := placeOf_lt (by omega)
  have hmod : exitOf n r % 480 ≠ 0 := by
    unfold exitOf placeOf
    split <;> omega
  refine ⟨?_, ?_, ?_⟩
  · unfold exitOf
    split <;> omega
  · unfold exitOf
    split
    · next hcase =>
      rcases hcase with rfl | ⟨hr, hn⟩
      · unfold placeOf at *
        omega
      · exact hnext hr hn
    · exact hnbuf
  · simp only [slotPa, cmdqInstSize]
    omega

theorem BlockSite.targets (hsite : BlockSite env h kind t body after) :
    ∃ h', ((kind.code t body).seq (.cmd after)).compile env h = .ok h' ∧
      exitOf h.instrCount (kind.rest body.length) < 480 * h'.nbuf ∧
      placeOf (h.instrCount + 1 + kind.rest body.length) + 1 < 480 * h'.nbuf ∧
      h'.nbuf ≤ (h.instrCount + 2 + kind.rest body.length + after.length) / 479 + 1 ∧
      BlockTargets env (cmdqCoreReplaceV3Instr env h').slots kind t h.instrCount
        (kind.rest body.length) after (exitOf h.instrCount (kind.rest body.length))
        (backOf h.instrCount) := by
  have hs : Stage env h h.instrCount [] h.replaceInstr h.ifStackNode h.whileStackNode :=
    ⟨hsite.live, hsite.filled.holds env, rfl, rfl, rfl⟩
  obtain ⟨h1, hcode, hs1⟩ := hs.block hsite.shift hsite.types hsite.ifs hsite.whiles kind body
    hsite.fits (by omega)
  obtain ⟨h2, hafter, hs2⟩ := hs1.appendWords after
  have hlength : (body ++ kind.back env h.instrCount body.length).length = kind.rest body.length :=
    kind.length_back h.instrCount body
  have hpos := length_pos_of_ne_nil hsite.followed
  have hroom := hs2.holds.filled.room
  have hnbufLe := hs2.holds.filled.nbuf_le
  rw [hs2.holds.count] at hnbufLe
  -- the last instruction of the block is at its place
  have hlen : (env.relLoad (placeOf h.instrCount) (exitOf h.instrCount (kind.rest body.length)) ::
      jumpCSlot .jumpCRelative t :: (body ++ kind.back env h.instrCount body.length) ++
        after).length = 2 + kind.rest body.length + after.length := by
    simp only [cons_append, length_cons, length_append] at hlength ⊢
    omega
  have hlast := hs2.holds.placeOf_lt_length (j := 1 + kind.rest body.length) (by omega)
    (Or.inl (by omega))
  have hmod := placeOf_mod_ne (h.instrCount + (1 + kind.rest body.length))
  rw [← Nat.add_assoc] at hlast hmod
  obtain ⟨hlt, he, hne⟩ := exitOf_bounds env h.instrCount (kind.rest body.length) h2.nbuf
    (by omega) (by
      intro hr hn
      rw [hr] at hlast
      unfold placeOf at *
      omega)
  refine ⟨h2, ?_, he, by omega, ?_, ?_⟩
  · simp only [Code.compile, hcode, hafter, bind, Except.bind]
  · rw [hlen] at hnbufLe
    omega
  · exact hs2.replaced hsite.followed hsite.shift hsite.types hsite.fits (by omega) hsite.saved
      hlt he hne

/-- The exit is right exactly under this condition. -/
theorem exitOf_eq_iff (n r : ℕ) :
    exitOf n r = placeOf (n + 1 + r) + 1 ↔ (n ≠ 0 ∨ r = 7) ∧ ¬(r = 0 ∧ (n + 1) % 479 = 0) := by
  unfold exitOf placeOf
  split <;> omega

theorem backOf_eq_iff (n : ℕ) : backOf n = placeOf n ↔ n ≠ 0 := by
  unfold backOf placeOf
  split <;> omega

/-- The placement is right exactly if exit and head are. -/
theorem Filled.placementOk_iff (hf : Filled h) (kind : BlockKind) (m : ℕ) :
    PlacementOk h kind m ↔
      exitOf h.instrCount (kind.rest m) = placeOf (h.instrCount + 1 + kind.rest m) + 1 ∧
        (kind = .whileBlock → backOf h.instrCount = placeOf h.instrCount) := by
  have hsize : h.cmdBufSize ≠ 0 ↔ h.instrCount ≠ 0 := by
    rw [Ne, Ne, hf.instrCount_eq_zero, cmdBufSize]
    simp [cmdqInstSize]
  have hend : (h.cmdBufSize + 2 * cmdqInstSize) % cmdqCmdBufferSize = 0 ↔
      (h.instrCount + 1) % 479 = 0 := by
    obtain ⟨hroom, hfill⟩ := hf
    simp only [cmdBufSize, instrCount, cmdqCmdBufferSize_eq, cmdqInstSize]
    omega
  rw [PlacementOk, hsize, hend, exitOf_eq_iff, backOf_eq_iff]
  cases kind with
  | ifBlock => simp [BlockKind.rest]
  | whileBlock =>
    simp only [BlockKind.rest, reduceCtorEq, false_and, or_false, not_false_iff, and_true,
      true_imp_iff]
    omega

/-- A single block is compiled with the right targets exactly at the fill levels of
`PlacementOk`. -/
theorem blockPlaced_iff {kind : BlockKind} {body after : List Slot}
    (hsite : BlockSite env h kind t body after) :
    BlockPlaced env h kind t body after ↔ PlacementOk h kind body.length := by
  obtain ⟨h', hcompile, hexit, hend, hnbuf, htargets⟩ := hsite.targets
  rw [hsite.filled.placementOk_iff]
  constructor
  · rintro ⟨h'', hcompile', hplaced⟩
    obtain rfl : h' = h'' := Except.ok.inj (hcompile.symm.trans hcompile')
    refine ⟨?_, ?_⟩
    · have hload := htargets.load.symm.trans hplaced.load
      simp only [loadSlot, Option.some.injEq, Slot.mk.injEq, true_and] at hload
      exact hsite.distinct _ _ (by omega) (by omega) hload
    · intro hkind
      have hloop := (htargets.loop hkind).symm.trans (hplaced.loop hkind)
      simp only [Option.some.injEq, Slot.mk.injEq, true_and] at hloop
      have hmono := placeOf_le
        (show h.instrCount ≤ h.instrCount + 1 + kind.rest body.length by omega)
      refine hsite.distinct _ _ ?_ (by omega) hloop
      unfold backOf
      split <;> omega
  · rintro ⟨hexit, hback⟩
    refine ⟨h', hcompile, ?_⟩
    rw [hexit] at htargets
    exact { htargets with loop := fun hkind => by rw [← hback hkind, htargets.loop hkind] }

/-- The command that assigns a value to a register. -/
def assignSlot (reg value : ℕ) : Slot := ⟨0xa0800000 + reg, value⟩

/-- Buffers at separate addresses. -/
def sampleEnv : RecEnv where
  gceShiftBit := 3
  paBase := fun buf => 0x100000 * (buf + 1)
  unwritten := fun _ => ⟨0, 0⟩

/-- A handle with one command. -/
def oneCommand : CmdqRec :=
  { CmdqRec.reset false with
    slots := [⟨0, 0⟩]
    nbuf := 1 }

theorem distinctAddresses_sample : sampleEnv.DistinctAddresses 1 := by
  intro i j hi hj heq
  simp only [cmdqRegShiftAddr, slotPa, sampleEnv, cmdqInstSize] at heq
  omega

/-- A handle with commands only. -/
def commandsOnly (n : ℕ) : CmdqRec :=
  { CmdqRec.reset false with
    slots := List.replicate n ⟨0, 0⟩
    nbuf := 1 }

/-- An `if` behind one command. -/
theorem blockPlaced_oneCommand :
    BlockSite sampleEnv oneCommand .ifBlock ⟨1, .equal, 1⟩ [assignSlot 1 1] [⟨0x40000000, 0⟩] ∧
      BlockPlaced sampleEnv oneCommand .ifBlock ⟨1, .equal, 1⟩ [assignSlot 1 1]
        [⟨0x40000000, 0⟩] := by
  have hsite : BlockSite sampleEnv oneCommand .ifBlock ⟨1, .equal, 1⟩ [assignSlot 1 1]
      [⟨0x40000000, 0⟩] :=
    ⟨rfl, ⟨rfl, rfl, rfl, rfl, by decide⟩, ⟨by decide, by decide⟩,
      by simp [oneCommand, CmdqRec.reset],
      trivial, trivial, ⟨by decide, by decide⟩, by decide, by unfold FitsPacket; decide,
      distinctAddresses_sample⟩
  exact ⟨hsite, (blockPlaced_iff hsite).mpr ⟨Or.inl (by decide), by decide⟩⟩

/-- What is recorded for a block. -/
def recordedBlock (h : CmdqRec) (kind : BlockKind) (body : List Slot) : CmdqRec :=
  (((kind.code ⟨1, .equal, 1⟩ body).seq (.cmd [⟨0x40000000, 0⟩])).compile
    sampleEnv h).toOption.getD h

/-- At the start of an empty packet neither kind of block is compiled with the right targets, and
an empty `if` is not where its jump fills a buffer. -/
theorem not_blockPlaced_boundaries :
    ¬BlockPlaced sampleEnv (CmdqRec.reset false) .ifBlock ⟨1, .equal, 1⟩ [assignSlot 1 1]
        [⟨0x40000000, 0⟩] ∧
      ¬BlockPlaced sampleEnv (CmdqRec.reset false) .whileBlock ⟨1, .equal, 1⟩ [assignSlot 1 1]
        [⟨0x40000000, 0⟩] ∧
      ¬BlockPlaced sampleEnv (commandsOnly 478) .ifBlock ⟨1, .equal, 1⟩ [] [⟨0x40000000, 0⟩] := by
  have hwrong : ∀ h kind body,
      ((kind.code ⟨1, .equal, 1⟩ body).seq (.cmd [⟨0x40000000, 0⟩])).compile sampleEnv h =
        .ok (recordedBlock h kind body) →
      (cmdqCoreReplaceV3Instr sampleEnv (recordedBlock h kind body)).slots[placeOf h.instrCount]? ≠
        some (loadSlot (sampleEnv.cmdqRegShiftAddr (sampleEnv.slotPa
          (placeOf (h.instrCount + 1 + kind.rest body.length) + 1)) % 2 ^ 32)) →
      ¬BlockPlaced sampleEnv h kind ⟨1, .equal, 1⟩ body [⟨0x40000000, 0⟩] := by
    rintro h kind body hcompile hload ⟨h', hcompile', hplaced⟩
    obtain rfl := Except.ok.inj (hcompile.symm.trans hcompile')
    exact hload hplaced.load
  exact ⟨hwrong _ _ _ (by decide +kernel) (by decide +kernel),
    hwrong _ _ _ (by decide +kernel) (by decide +kernel),
    hwrong _ _ _ (by decide +kernel) (by decide +kernel)⟩

end Mt8169.Mdp
