import Mathlib.Data.Nat.Notation

/-!
# Sets of numbers as words

A word stands for the set of the positions of its set bits. Positions are added and removed by the
masks that programs use, and the size of the set is the number of bits.
-/

namespace BitMask

open List

variable {w : ℕ}

variable (m : BitVec w) (i : ℕ)

/-- Set one bit. -/
def insert : BitVec w := m ||| 1#w <<< i

/-- Clear one bit. -/
def erase : BitVec w := m &&& ~~~(1#w <<< i)

/-- The number of bits that are set. -/
def count : ℕ := (range w).countP m.getLsbD

variable {i : ℕ}

theorem getLsbD_insert (hi : i < w) (j : ℕ) :
    (insert m i).getLsbD j = (m.getLsbD j || decide (j = i)) := by
  rw [insert, BitVec.getLsbD_or, ← BitVec.twoPow_eq, BitVec.getLsbD_twoPow]
  grind

theorem getLsbD_erase (j : ℕ) : (erase m i).getLsbD j = (m.getLsbD j && decide (j ≠ i)) := by
  rw [erase, BitVec.getLsbD_and, BitVec.getLsbD_not, ← BitVec.twoPow_eq, BitVec.getLsbD_twoPow]
  grind

variable {m m' : BitVec w}

theorem eq_of_getLsbD (h : ∀ i, m.getLsbD i = m'.getLsbD i) : m = m' :=
  BitVec.eq_of_getLsbD_eq fun i _ => h i

theorem count_of_one_more (hoff : m.getLsbD i = false) (hon : m'.getLsbD i = true)
    (hrest : ∀ j, j ≠ i → m'.getLsbD j = m.getLsbD j) : count m' = count m + 1 := by
  have hi : i < w := BitVec.lt_of_getLsbD hon
  obtain ⟨before, after, hsplit⟩ := append_of_mem (mem_range.mpr hi)
  have hnodup := nodup_range (n := w)
  rw [hsplit, nodup_append, nodup_cons] at hnodup
  obtain ⟨-, ⟨hafter, -⟩, hbefore⟩ := hnodup
  have hcongr (l : List ℕ) (hl : i ∉ l) : l.countP m'.getLsbD = l.countP m.getLsbD :=
    countP_congr fun j hj => by rw [hrest j (fun heq => hl (heq ▸ hj))]
  rw [count, count, hsplit, countP_append, countP_append, countP_cons,
    countP_cons, hon, hoff, hcongr after hafter,
    hcongr before fun hin => hbefore i hin i mem_cons_self rfl]
  grind

theorem count_insert {m : BitVec w} (hi : i < w) (hoff : m.getLsbD i = false) :
    count (insert m i) = count m + 1 := by
  apply count_of_one_more hoff
  · rw [getLsbD_insert m hi]
    simp
  · intro j hj
    rw [getLsbD_insert m hi]
    simp [hj]

theorem count_erase {m : BitVec w} (hon : m.getLsbD i = true) :
    count m = count (erase m i) + 1 := by
  apply count_of_one_more _ hon
  · intro j hj
    rw [getLsbD_erase]
    simp [hj]
  · rw [getLsbD_erase]
    simp

end BitMask
