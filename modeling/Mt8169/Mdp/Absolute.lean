import Mt8169.Mdp.Emit

/-!
# Making the jumps of a block absolute

`cmdq_core_replace_v3_instr` turns the recorded words of a block into words with the same targets,
given by address. Jumps saved before the block are in front of it and leave its words alone.
-/

namespace Mt8169.Mdp

open Cmdq MachineInt CmdqRec RecEnv List Option

variable {env : RecEnv} {k e n m lo : ℕ} {h h' : CmdqRec} {t : Test}

theorem CmdqRec.getPaByOffset_eq (env : RecEnv) (h : CmdqRec) (he : e < 480 * h.nbuf) :
    h.getPaByOffset env (cmdqInstSize * e) = env.slotPa e := by
  have hlt : cmdqInstSize * e < h.bufSize := by
    simp only [bufSize, cmdqCmdBufferSize_eq, cmdqInstSize]
    omega
  have hdiv : cmdqInstSize * e / cmdqCmdBufferSize = e / 480 := by
    simp only [cmdqCmdBufferSize_eq, cmdqInstSize]
    omega
  have hmod : cmdqInstSize * e % cmdqCmdBufferSize = cmdqInstSize * (e % 480) := by
    simp only [cmdqCmdBufferSize_eq, cmdqInstSize]
    omega
  simp only [getPaByOffset, if_pos hlt, hdiv, hmod, slotPa]

theorem RecEnv.revert_shift (env : RecEnv) (hshift : env.gceShiftBit ≤ 3) (m : ℕ) :
    cmdqInstSize * m / 2 ^ env.gceShiftBit * 2 ^ env.gceShiftBit = cmdqInstSize * m := by
  have hdvd : 2 ^ env.gceShiftBit ∣ cmdqInstSize * m :=
    Dvd.dvd.mul_right (pow_dvd_pow 2 hshift) m
  exact Nat.div_mul_cancel hdvd

theorem RecEnv.revert_relLoad (env : RecEnv) (hshift : env.gceShiftBit ≤ 3) (hlt : n < e) :
    env.cmdqRegRevertAddr (env.relLoad n e).lo =
      u32 (cmdqInstSize * e - cmdqInstSize * (n + 1) : ℤ) := by
  have hrevert : ((cmdqInstSize * (e - n - 1) / 2 ^ env.gceShiftBit : ℕ) : ℤ) *
      2 ^ env.gceShiftBit = (cmdqInstSize * (e - n - 1) : ℕ) := by
    exact_mod_cast env.revert_shift hshift (e - n - 1)
  simp only [relLoad, loadSlot, cmdqRegShiftAddr, cmdqRegRevertAddr, hrevert]
  congr 1
  simp only [cmdqInstSize]
  omega

/-- What a word of the packet is replaced by. -/
theorem Ready.replaceOne_eq (env : RecEnv) (hr : Ready k h) (hm : m < 480 * (k + 1)) :
    replaceOne env h m =
      if (h.slotAt env m).op = CmdqCode.jump.val then cmdqCoreV3AdjustJump env h m m
      else if (h.slotAt env m).op = CmdqCode.jumpCRelative.val then
        cmdqCoreV3ReplaceJumpc env h m m m
      else h := by
  have hfits := hr.fits
  have hidx : m ≠ h.bufSize / cmdqInstSize := by
    simp only [bufSize, hr.nbuf, cmdqCmdBufferSize_eq, cmdqInstSize]
    omega
  have hva : h.getVaByOffset (u32 (m * cmdqInstSize)) = some m := by
    have hword : u32 (m * cmdqInstSize) = cmdqInstSize * m := by
      simp only [cmdqCmdBufferSize_eq, cmdqInstSize, u32] at *
      omega
    rw [hword, h.getVaByOffset_eq (by rwa [hr.nbuf])]
  simp only [replaceOne, if_neg hidx, hva, hr.changeJump, if_true]

/-- A relative jump becomes an absolute one. -/
theorem Ready.adjustJump (hr : Ready k h)
    (hslot : h.slots[n]? = some ⟨CmdqCode.jump.val <<< 24, lo⟩)
    (hlo : env.cmdqRegRevertAddr lo = u32 (cmdqInstSize * e - cmdqInstSize * n : ℤ))
    (he : e < 480 * (k + 1)) :
    cmdqCoreV3AdjustJump env h n n = h.setSlot n ⟨CmdqCode.jump.val <<< 24 ||| 1,
      env.cmdqRegShiftAddr (env.slotPa e) % 2 ^ 32⟩ := by
  have hfits := hr.fits
  have hoffset : u32 (n * cmdqInstSize + env.cmdqRegRevertAddr lo) = cmdqInstSize * e := by
    have hword : (n * cmdqInstSize + (cmdqInstSize * e - cmdqInstSize * n) : ℤ) =
        (cmdqInstSize * e : ℕ) := by
      push_cast
      ring
    rw [hlo, u32_add_u32, hword]
    refine u32_natCast ?_
    simp only [cmdqCmdBufferSize_eq, cmdqInstSize] at *
    omega
  have hne : cmdqInstSize * e ≠ h.bufSize := by
    simp only [bufSize, hr.nbuf, cmdqCmdBufferSize_eq, cmdqInstSize]
    omega
  have hat : h.slotAt env n = ⟨CmdqCode.jump.val <<< 24, lo⟩ := by
    rw [slotAt, hslot, getD_some]
  have hrelative : CmdqCode.jump.val <<< 24 % 2 ≠ 1 := by decide
  simp only [cmdqCoreV3AdjustJump, hat, if_neg hrelative, hoffset, if_neg hne]
  rw [h.getPaByOffset_eq env (by rw [hr.nbuf]; exact he)]

theorem Ready.jumpCLogic (env : RecEnv) (hr : Ready k h) (hn : n < 480 * (k + 1))
    (hslot : h.slots[n]? = some (loadSlot lo)) : jumpCLogic env h (n + 1) = some (n, false) := by
  have hfits := hr.fits
  have hva : h.getVaByOffset (u32 (((n + 1 : ℕ) - 1 : ℤ) * cmdqInstSize)) = some n := by
    have hword : u32 (((n + 1 : ℕ) - 1 : ℤ) * cmdqInstSize) = cmdqInstSize * n := by
      simp only [cmdqCmdBufferSize_eq, cmdqInstSize, u32] at *
      omega
    rw [hword, h.getVaByOffset_eq (by rwa [hr.nbuf])]
  have hat : h.slotAt env n = loadSlot lo := by rw [slotAt, hslot, getD_some]
  have hnotLink : (loadSlot lo).hi ≠ CmdqCode.jump.val <<< 24 ||| 1 := by
    show 0xa0800000 ≠ _
    decide
  simp only [Mdp.jumpCLogic, hva, bind_eq_bind, bind_some, hat, if_neg hnotLink]

/-- A relative conditional jump becomes one to the loaded address. -/
theorem Ready.replaceJumpc (hr : Ready k h) {va : ℕ} {revised : Bool}
    (hlogic : Mdp.jumpCLogic env h va = some (n, revised)) (hva : va = n + 1 + revised.toNat)
    (hload : h.slots[n]? = some (loadSlot lo))
    (hjump : h.slots[va]? = some (jumpCSlot .jumpCRelative t)) (htypes : t.TypesOk)
    (hlo : env.cmdqRegRevertAddr lo = u32 (cmdqInstSize * e - cmdqInstSize * (n + 1) : ℤ))
    (he : e < 480 * (k + 1)) (hne : env.slotPa e ≠ 0) :
    cmdqCoreV3ReplaceJumpc env h va va va =
      (h.setSlot n (loadSlot (env.cmdqRegShiftAddr (env.slotPa e) % 2 ^ 32))).setSlot va
        (jumpCSlot .jumpCAbsolute t) := by
  have hfits := hr.fits
  have hat : h.slotAt env n = loadSlot lo := by rw [slotAt, hload, getD_some]
  have hat' : h.slotAt env va = jumpCSlot .jumpCRelative t := by
    rw [slotAt, hjump, getD_some]
  have hassign : (loadSlot lo).op = CmdqCode.logic.val ∧
      (loadSlot lo).hi / 2 ^ 16 % 2 ^ 5 = CmdqLogic.assign.val := by
    show 0xa0800000 / 2 ^ 24 = _ ∧ 0xa0800000 / 2 ^ 16 % 2 ^ 5 = _
    decide
  have hword : ∀ z : ℤ, z = cmdqInstSize * (n + 1) →
      u32 (z + env.cmdqRegRevertAddr lo) = cmdqInstSize * e := by
    rintro z rfl
    rw [hlo, u32_add_u32, add_sub_cancel, ← Nat.cast_mul]
    refine u32_natCast ?_
    simp only [cmdqCmdBufferSize_eq, cmdqInstSize] at *
    omega
  have hoffset : (if revised = true
      then u32 ((va - 1 : ℤ) * cmdqInstSize + env.cmdqRegRevertAddr (loadSlot lo).lo)
      else u32 (va * cmdqInstSize + env.cmdqRegRevertAddr (loadSlot lo).lo)) =
        cmdqInstSize * e := by
    subst hva
    cases revised <;> refine hword _ ?_ <;> simp only [Bool.toNat_true, Bool.toNat_false] <;>
      push_cast <;> ring
  have hpa : h.getPaByOffset env (cmdqInstSize * e) = env.slotPa e :=
    h.getPaByOffset_eq env (by rw [hr.nbuf]; exact he)
  simp only [cmdqCoreV3ReplaceJumpc, hlogic, hat, if_pos hassign, hoffset, hpa, if_neg hne, hat',
    (jumpCSlot_hi htypes).2.2]
  rfl

theorem replaceLoop_cons (env : RecEnv) (hm : m < h.slots.length) (positions : List ℕ) :
    replaceLoop env h (m :: positions) = replaceLoop env (replaceOne env h m) positions := by
  have hinside : ¬h.cmdBufSize < u32 ((m + 1) * cmdqInstSize) := by
    simp only [cmdBufSize, cmdqInstSize, u32]
    omega
  rw [replaceLoop, if_neg hinside]

theorem Ready.setSlot (hr : Ready k h) (i : ℕ) (slot : Slot) : Ready k (h.setSlot i slot) :=
  { hr with }

/-- The handle with other words. -/
def CmdqRec.withSlots (h : CmdqRec) (slots : List Slot) : CmdqRec := { h with slots := slots }

theorem Ready.withSlots (hr : Ready k h) (slots : List Slot) : Ready k (h.withSlots slots) :=
  { hr with }

/-- Two handles have the same words from `n` on, and the same number of them. -/
def SameFrom (n : ℕ) (h h' : CmdqRec) : Prop :=
  ∃ slots, h' = h.withSlots slots ∧ slots.length = h.slots.length ∧
    slots.drop n = h.slots.drop n

theorem SameFrom.refl (n : ℕ) (h : CmdqRec) : SameFrom n h h := ⟨h.slots, rfl, rfl, rfl⟩

theorem SameFrom.trans {h h'' : CmdqRec} (hsame : SameFrom n h h') (hsame' : SameFrom n h' h'') :
    SameFrom n h h'' := by
  obtain ⟨slots, rfl, hlen, hdrop⟩ := hsame
  obtain ⟨slots', rfl, hlen', hdrop'⟩ := hsame'
  exact ⟨slots', rfl, hlen'.trans hlen, hdrop'.trans hdrop⟩

theorem SameFrom.setSlot {i : ℕ} (hi : i < n) (h : CmdqRec) (slot : Slot) :
    SameFrom n h (h.setSlot i slot) :=
  ⟨h.slots.set i slot, rfl, length_set, drop_set_of_lt hi⟩

theorem SameFrom.ready (hsame : SameFrom n h h') (hr : Ready k h) : Ready k h' := by
  obtain ⟨slots, rfl, -, -⟩ := hsame
  exact hr.withSlots slots

theorem SameFrom.length (hsame : SameFrom n h h') : h'.slots.length = h.slots.length := by
  obtain ⟨slots, rfl, hlen, -⟩ := hsame
  exact hlen

theorem Ready.lt_of_jumpCLogic (hr : Ready k h) {found : ℕ × Bool} (hm : m < 480 * (k + 1))
    (hlogic : Mdp.jumpCLogic env h m = some found) : found.1 < m := by
  have hfits := hr.fits
  have hback : ∀ c : ℕ, 0 < c → c ≤ 2 → ∀ va,
      h.getVaByOffset (u32 ((m - c : ℤ) * cmdqInstSize)) = some va → va < m := by
    intro c hpos hle va hva
    unfold getVaByOffset at hva
    split at hva
    · next hlt =>
      obtain rfl := some.inj hva
      simp only [bufSize, hr.nbuf, cmdqCmdBufferSize_eq, cmdqInstSize, u32] at *
      omega
    · cases hva
  obtain ⟨va, hva, hlogic⟩ := bind_eq_some_iff.mp hlogic
  split at hlogic
  · obtain ⟨va', hva', hfound⟩ := bind_eq_some_iff.mp hlogic
    obtain rfl := some.inj hfound
    exact hback 2 (by omega) (by omega) va' hva'
  · obtain rfl := some.inj hlogic
    exact hback 1 (by omega) (by omega) va hva

/-- A replacement does not touch the words behind it. -/
theorem Ready.replaceOne_before (env : RecEnv) (hr : Ready k h) (hmn : m < n)
    (hm : m < 480 * (k + 1)) : SameFrom n h (replaceOne env h m) := by
  rw [hr.replaceOne_eq env hm]
  split
  · simp only [cmdqCoreV3AdjustJump]
    split
    · exact SameFrom.refl n h
    · exact SameFrom.setSlot hmn h _
  · split
    · unfold cmdqCoreV3ReplaceJumpc
      cases hlogic : Mdp.jumpCLogic env h m with
      | none => exact SameFrom.refl n h
      | some found =>
        have hva := hr.lt_of_jumpCLogic hm hlogic
        dsimp only
        generalize (if found.2 = true then _ else _) = offsetTarget
        split
        · split
          · exact SameFrom.refl n h
          · exact (SameFrom.setSlot (by omega) h _).trans (SameFrom.setSlot hmn _ _)
        · exact SameFrom.refl n h
    · exact SameFrom.refl n h

theorem Ready.replaceLoop_before (env : RecEnv) (hr : Ready k h) {before : List ℕ}
    (hbefore : ∀ m ∈ before, m < n) (hn : n ≤ h.slots.length)
    (hlen : h.slots.length ≤ 480 * (k + 1)) (positions : List ℕ) :
    ∃ h', SameFrom n h h' ∧
      replaceLoop env h (before ++ positions) = replaceLoop env h' positions := by
  induction before generalizing h with
  | nil => exact ⟨h, SameFrom.refl n h, rfl⟩
  | cons m before ih =>
    have hmn := hbefore m mem_cons_self
    have hsame := hr.replaceOne_before env hmn (by omega)
    obtain ⟨h', hsame', hgo⟩ := ih (hsame.ready hr)
      (fun m' hm' => hbefore m' (mem_cons_of_mem m hm')) (by rwa [hsame.length])
      (by rwa [hsame.length])
    refine ⟨h', hsame.trans hsame', ?_⟩
    rw [cons_append, replaceLoop_cons env (by omega), hgo]

end Mt8169.Mdp
