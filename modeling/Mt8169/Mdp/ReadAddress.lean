import Mt8169.Mdp.Flush

/-!
# Looking up a word of the write buffers

`cmdqCoreReadWriteAddress` takes the distance of an address from the start of a buffer as a signed
32-bit number. `cmdqCoreReadWriteAddressBatch` compares in 64 bits, and tries the buffer of the last
address first. Here it is said when both give the same word.
-/

namespace Mt8169.Mdp

open MachineInt List

/-- The address lies in the buffer, as `cmdqCoreReadWriteAddressBatch` tests it. -/
def WriteAddr.Holds (r : WriteAddr) (pa : ℕ) : Prop := r.pa ≤ pa ∧ pa < u64 (r.pa + r.count * 4)
  deriving Decidable

section Lookup

variable (data : WriteAddr → ℕ → UInt32) (list : List WriteAddr) (pa : ℕ)

/-- `cmdqCoreReadWriteAddress`. `data` gives the words of the buffers, by their offsets. -/
def cmdqCoreReadWriteAddress : UInt32 :=
  match list.find? fun r => 0 ≤ s32 (pa - r.pa) ∧ s32 (pa - r.pa) / 4 < r.count with
  | some r => data r (s32 (pa - r.pa)).toNat
  | none => 0

/-- The buffer for an address of a batch. -/
def curWaddr (cur : Option WriteAddr) : Option WriteAddr :=
  match cur with
  | some r => if r.Holds pa then some r else list.find? fun r => r.Holds pa
  | none => list.find? fun r => r.Holds pa

/-- The word of a buffer, or 0. -/
def wordOf (cur : Option WriteAddr) : UInt32 := (cur.map fun r => data r (pa - r.pa)).getD 0

/-- `cmdqCoreReadWriteAddressBatch`, with the buffer of the address before. -/
def cmdqCoreReadWriteAddressBatch (cur : Option WriteAddr) : List ℕ → List UInt32
  | [] => []
  | pa :: addrs =>
    wordOf data pa (curWaddr list pa cur) ::
      cmdqCoreReadWriteAddressBatch (curWaddr list pa cur) addrs

/-- The word at an address: that of the buffer in which it lies, or 0. -/
def wordAt : UInt32 := wordOf data pa (list.find? fun r => r.Holds pa)

end Lookup

/-- The buffers in use: none is longer than a page, and no two of them overlap. -/
structure BuffersLive (list : List WriteAddr) : Prop where
  count_le : ∀ r ∈ list, r.count ≤ 1024
  disjoint : ∀ pa, ∀ r ∈ list, ∀ r' ∈ list, r.Holds pa → r'.Holds pa → r = r'

variable {data : WriteAddr → ℕ → UInt32} {list : List WriteAddr} {pa : ℕ}

/-- The batch takes the buffer with the address. -/
theorem BuffersLive.curWaddr_eq (h : BuffersLive list) {cur : Option WriteAddr}
    (hcur : ∀ r ∈ cur, r ∈ list) :
    curWaddr list pa cur = list.find? fun r => r.Holds pa := by
  unfold curWaddr
  split
  · rename_i r
    split
    · rename_i hholds
      obtain ⟨r', hfind⟩ : ∃ r', (list.find? fun r => r.Holds pa) = some r' :=
        Option.isSome_iff_exists.mp (find?_isSome.mpr ⟨r, hcur r rfl, decide_eq_true hholds⟩)
      rw [hfind, h.disjoint pa r (hcur r rfl) r' (mem_of_find?_eq_some hfind) hholds
        (of_decide_eq_true (find?_some hfind :))]
    · rfl
  · rfl

/-- A batch gives the word at each of its addresses. -/
theorem BuffersLive.batch_eq (h : BuffersLive list) {cur : Option WriteAddr}
    (hcur : ∀ r ∈ cur, r ∈ list) (addrs : List ℕ) :
    cmdqCoreReadWriteAddressBatch data list cur addrs = addrs.map (wordAt data list) := by
  induction addrs generalizing cur with
  | nil => rfl
  | cons pa addrs ih =>
    rw [cmdqCoreReadWriteAddressBatch, h.curWaddr_eq hcur,
      ih fun r hr => mem_of_find?_eq_some hr]
    rfl

/-- No buffer ahead of the one with the address is at a distance whose low 32 bits are below its
size. -/
def NoAlias (pa : ℕ) : List WriteAddr → Prop
  | [] => True
  | r :: list => r.Holds pa ∨ r.count * 4 ≤ u32 (pa - r.pa) ∧ NoAlias pa list

theorem read_cons {r : WriteAddr} (hcount : r.count ≤ 1024) :
    cmdqCoreReadWriteAddress data (r :: list) pa =
      if u32 (pa - r.pa) < r.count * 4 then data r (u32 (pa - r.pa))
      else cmdqCoreReadWriteAddress data list pa := by
  have hiff : (0 ≤ s32 (pa - r.pa) ∧ s32 (pa - r.pa) / 4 < r.count) ↔
      u32 (pa - r.pa) < r.count * 4 := by
    simp only [s32, u32]
    omega
  unfold cmdqCoreReadWriteAddress
  by_cases hlow : u32 (pa - r.pa) < r.count * 4
  · have hsame : (s32 (pa - r.pa)).toNat = u32 (pa - r.pa) := by
      simp only [s32, u32] at hlow ⊢
      omega
    simp [hiff, hlow, hsame]
  · simp [hiff, hlow]

theorem wordAt_cons (r : WriteAddr) :
    wordAt data (r :: list) pa =
      if r.Holds pa then data r (pa - r.pa) else wordAt data list pa := by
  by_cases hholds : r.Holds pa <;> simp [wordAt, wordOf, hholds]

section Agree

variable (hcount : ∀ r ∈ list, r.count ≤ 1024)
include hcount

/-- Without an alias, the word is the one at the address. -/
theorem read_of_noAlias (hpa : pa < 2 ^ 32) (h : NoAlias pa list) :
    cmdqCoreReadWriteAddress data list pa = wordAt data list pa := by
  induction list with
  | nil => rfl
  | cons r list ih =>
    rw [read_cons (hcount r mem_cons_self), wordAt_cons]
    by_cases hholds : r.Holds pa
    · have hdistance : u32 (pa - r.pa) = pa - r.pa ∧ pa - r.pa < r.count * 4 := by
        simp only [WriteAddr.Holds, u64, u32] at hholds ⊢
        omega
      rw [if_pos (by omega), if_pos hholds, hdistance.1]
    · obtain ⟨hfar, hrest⟩ := h.resolve_left hholds
      rw [if_neg (by omega), if_neg hholds,
        ih (fun r hr => hcount r (mem_cons_of_mem _ hr)) hrest]

/-- The buffers without the address hold ones, and the others zeros. -/
theorem noAlias_of_read
    (h : cmdqCoreReadWriteAddress (fun r _ => if r.Holds pa then 0 else 1) list pa = 0) :
    NoAlias pa list := by
  induction list with
  | nil => trivial
  | cons r list ih =>
    by_cases hholds : r.Holds pa
    · exact Or.inl hholds
    · rw [read_cons (hcount r mem_cons_self), if_neg hholds] at h
      split at h
      · cases h
      · rename_i hfar
        exact Or.inr ⟨Nat.le_of_not_lt hfar,
          ih (fun r hr => hcount r (mem_cons_of_mem _ hr)) h⟩

end Agree

/-- The two functions give the word at the address, whatever the buffers hold and whatever the batch
is, exactly if no other buffer is taken for its one. -/
theorem readWriteAddress_agrees_iff {list : List WriteAddr} (h : BuffersLive list) {pa : ℕ}
    (hpa : pa < 2 ^ 32) :
    (∀ data, cmdqCoreReadWriteAddress data list pa = wordAt data list pa ∧
        ∀ pre post,
          (cmdqCoreReadWriteAddressBatch data list none (pre ++ pa :: post))[pre.length]? =
            some (cmdqCoreReadWriteAddress data list pa)) ↔ NoAlias pa list := by
  constructor
  · intro hsame
    apply noAlias_of_read h.count_le
    rw [(hsame _).1, wordAt, wordOf]
    cases hfind : list.find? fun r => r.Holds pa with
    | none => rfl
    | some r => exact if_pos (of_decide_eq_true (find?_some hfind :))
  · intro halias data
    have hread : cmdqCoreReadWriteAddress data list pa = wordAt data list pa :=
      read_of_noAlias h.count_le hpa halias
    refine ⟨hread, fun pre post => ?_⟩
    rw [h.batch_eq (fun _ hr => by cases hr), hread]
    simp

/-- Three buffers of four words, the first one above the first four gigabytes. -/
def scatteredBuffers : List WriteAddr := [⟨4, 0x100002000⟩, ⟨4, 0x3000⟩, ⟨4, 0x1000⟩]

theorem live_scatteredBuffers : BuffersLive scatteredBuffers where
  count_le := by decide
  disjoint pa r hr r' hr' hholds hholds' := by
    simp only [scatteredBuffers, mem_cons, not_mem_nil, or_false] at hr hr'
    rcases hr with rfl | rfl | rfl <;> rcases hr' with rfl | rfl | rfl <;>
      first
        | rfl
        | simp only [WriteAddr.Holds, u64] at hholds hholds'
          omega

/-- An address in the last buffer is not taken for one in the others. -/
theorem readWriteAddress_agrees_scatteredBuffers :
    BuffersLive scatteredBuffers ∧ 0x1004 < 2 ^ 32 ∧ ∀ data,
      cmdqCoreReadWriteAddress data scatteredBuffers 0x1004 = data ⟨4, 0x1000⟩ 4 ∧
        ∀ pre post, (cmdqCoreReadWriteAddressBatch data scatteredBuffers none
          (pre ++ 0x1004 :: post))[pre.length]? = some (data ⟨4, 0x1000⟩ 4) := by
  have halias : NoAlias 0x1004 scatteredBuffers :=
    Or.inr ⟨by decide, Or.inr ⟨by decide, Or.inl (by decide)⟩⟩
  refine ⟨live_scatteredBuffers, by decide, fun data => ?_⟩
  obtain ⟨hread, hbatch⟩ :=
    (readWriteAddress_agrees_iff live_scatteredBuffers (by decide)).mpr halias data
  have hword : wordAt data scatteredBuffers 0x1004 = data ⟨4, 0x1000⟩ 4 := rfl
  rw [hread, hword] at hbatch
  exact ⟨hread.trans hword, hbatch⟩

/-- A buffer above the first four gigabytes is taken for one below. -/
theorem not_readWriteAddress_agrees :
    cmdqCoreReadWriteAddress (fun _ _ => 7) [⟨4, 0x100001000⟩] 0x1004 = 7 ∧
      cmdqCoreReadWriteAddressBatch (fun _ _ => 7) [⟨4, 0x100001000⟩] none [0x1004] = [0] := by
  decide

end Mt8169.Mdp
