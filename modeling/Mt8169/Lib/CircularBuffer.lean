import Mathlib.Data.Int.Notation
import Mathlib.Data.List.GetD

/-!
# Circular buffers

A circular buffer occupies `size` cells of a memory from `base` on. Its content is the list of the
cells from a start cell on, where the first cell comes after the last one. Data stored after the
content extend it, as long as there is room for both.
-/

namespace CircularBuffer

open List Int

variable {α : Type*}

section Cells

variable {base size start i j : ℤ}

/-- The cell that follows `start` by `i` in the buffer of `size` cells from `base` on. -/
def cell (base size start i : ℤ) : ℤ := base + (start - base + i) % size

theorem base_le_cell (hsize : 0 < size) : base ≤ cell base size start i := by
  have hmod := emod_nonneg (start - base + i) (by omega : size ≠ 0)
  unfold cell
  omega

theorem cell_lt (hsize : 0 < size) : cell base size start i < base + size := by
  have hmod := emod_lt_of_pos (start - base + i) hsize
  unfold cell
  omega

theorem cell_cell : cell base size (cell base size start i) j = cell base size start (i + j) := by
  have hsum : base + (start - base + i) % size - base + j = (start - base + i) % size + j := by
    omega
  unfold cell
  rw [hsum, Int.emod_add_emod, Int.add_assoc]

theorem cell_of_lt (hlo : base ≤ start + i) (hhi : start + i < base + size) :
    cell base size start i = start + i := by
  unfold cell
  rw [emod_eq_of_lt (by omega) (by omega)]
  omega

theorem cell_of_le (hlo : base + size ≤ start + i) (hhi : start + i < base + 2 * size) :
    cell base size start i = start + i - size := by
  have hmod : (start - base + i) % size = start - base + i - size := by
    rw [← sub_emod_right, emod_eq_of_lt (by omega) (by omega)]
  unfold cell
  rw [hmod]
  omega

theorem cell_zero (hlo : base ≤ start) (hhi : start < base + size) :
    cell base size start 0 = start := by
  rw [cell_of_lt (by omega) (by omega), Int.add_zero]

theorem cell_add_size : cell base size start (i + size) = cell base size start i := by
  unfold cell
  rw [← Int.add_assoc, Int.add_emod_right]

/-- Fewer places than the size are different cells. -/
theorem cell_inj (hlo : j - size < i) (hhi : i < j + size)
    (h : cell base size start i = cell base size start j) : i = j := by
  have hmod : (start - base + i) % size = (start - base + j) % size := by
    unfold cell at h
    omega
  have hdvd : (i - j) % size = 0 := by
    rw [emod_eq_emod_iff_emod_sub_eq_zero] at hmod
    rw [← hmod]
    congr 1
    omega
  have hdvd' : (j - i) % size = 0 := by
    rw [← Int.neg_sub, Int.neg_emod, if_pos (Int.dvd_of_emod_eq_zero hdvd)]
  rcases Int.lt_or_le i j with hlt | hle
  · rw [emod_eq_of_lt (by omega) (by omega)] at hdvd'
    omega
  · rw [emod_eq_of_lt (by omega) (by omega)] at hdvd
    omega

/-- Each cell is reached from any start. -/
theorem exists_cell_eq (start : ℤ) (hlo : base ≤ i) (hhi : i < base + size) :
    ∃ d, 0 ≤ d ∧ d < size ∧ cell base size start d = i := by
  have hsize : 0 < size := by omega
  refine ⟨(i - start) % size, emod_nonneg _ (by omega), emod_lt_of_pos _ hsize, ?_⟩
  unfold cell
  rw [add_emod_emod]
  have hsum : start - base + (i - start) = i - base := by omega
  rw [hsum, emod_eq_of_lt (by omega) (by omega)]
  omega

end Cells

section Contents

variable {base size start : ℤ} {m m' : ℤ → α} {n : ℕ}

/-- The first `n` cells from `start` on. -/
def contents (m : ℤ → α) (base size start : ℤ) (n : ℕ) : List α :=
  (List.range n).map fun i : ℕ => m (cell base size start i)

@[simp] theorem length_contents (n : ℕ) : (contents m base size start n).length = n := by
  simp [contents]

@[simp] theorem contents_zero : contents m base size start 0 = [] := rfl

theorem getElem_contents {i : ℕ} (h : i < (contents m base size start n).length) :
    (contents m base size start n)[i] = m (cell base size start i) := by
  simp [contents]

theorem head?_contents (h : 0 < n) :
    (contents m base size start n).head? = some (m (cell base size start 0)) := by
  obtain ⟨k, rfl⟩ := Nat.exists_eq_succ_of_ne_zero (Nat.ne_of_gt h)
  simp [contents, range_succ_eq_map]

theorem contents_add (a b : ℕ) :
    contents m base size start (a + b) =
      contents m base size start a ++ contents m base size (cell base size start a) b := by
  unfold contents
  rw [range_add, map_append, map_map]
  congr 1
  apply map_congr_left
  intro i _
  rw [Function.comp_apply, cell_cell, ← natCast_add]

theorem take_contents {k : ℕ} (h : k ≤ n) :
    (contents m base size start n).take k = contents m base size start k := by
  obtain ⟨b, rfl⟩ := Nat.exists_eq_add_of_le h
  rw [contents_add]
  exact take_left' (length_contents k)

theorem drop_contents {k : ℕ} (h : k ≤ n) :
    (contents m base size start n).drop k =
      contents m base size (cell base size start k) (n - k) := by
  obtain ⟨b, rfl⟩ := Nat.exists_eq_add_of_le h
  rw [contents_add, Nat.add_sub_cancel_left]
  exact drop_left' (length_contents k)

/-- Contents depend on their own cells only. -/
theorem contents_congr
    (h : ∀ i : ℕ, i < n → m (cell base size start i) = m' (cell base size start i)) :
    contents m base size start n = contents m' base size start n := by
  apply map_congr_left
  intro i hi
  exact h i (mem_range.mp hi)

theorem contents_eq_range (hlo : base ≤ start) (hhi : start + n ≤ base + size) :
    contents m base size start n = (List.range n).map fun i : ℕ => m (start + i) := by
  apply map_congr_left
  intro i hi
  have hi' := mem_range.mp hi
  rw [cell_of_lt (by omega) (by omega)]

end Contents

section Stores

variable {base size start off p : ℤ} {m m' : ℤ → α} {xs : List α}

/-- Copy a list to consecutive places, from `off` on. -/
def copyIn (m : ℤ → α) (off : ℤ) (xs : List α) : ℤ → α := fun p =>
  if off ≤ p then xs.getD (p - off).toNat (m p) else m p

theorem copyIn_of_le (h : off ≤ p) : copyIn m off xs p = xs.getD (p - off).toNat (m p) := if_pos h

theorem copyIn_of_lt (h : p < off) : copyIn m off xs p = m p :=
  if_neg (by omega)

theorem copyIn_of_length_le (h : off + xs.length ≤ p) : copyIn m off xs p = m p := by
  rw [copyIn_of_le (by omega), getD_eq_default _ _ (by omega)]

/-- The list is in the cells from `start` on, and the other cells are as before. -/
def Stored (m m' : ℤ → α) (base size start : ℤ) (xs : List α) : Prop :=
  ∀ i : ℕ, i < size → m' (cell base size start i) = xs.getD i (m (cell base size start i))

/-- A copy without a wrap stores its elements. -/
theorem stored_copyIn (hlo : base ≤ start) (hfits : start + xs.length ≤ base + size) :
    Stored m (copyIn m start xs) base size start xs := by
  intro i hi
  rcases Int.lt_or_le (start + i) (base + size) with hlt | hle
  · rw [cell_of_lt (by omega) hlt, copyIn_of_le (by omega)]
    congr 1
    omega
  · rw [cell_of_le hle (by omega), copyIn_of_lt (by omega), getD_eq_default _ _ (by omega)]

/-- So does a copy in two parts around the end. -/
theorem stored_copyIn_copyIn (hlo : base ≤ start) (hfits : xs.length ≤ size) (k : ℕ)
    (hk : start + k = base + size) :
    Stored m (copyIn (copyIn m start (xs.take k)) base (xs.drop k)) base size start xs := by
  intro i hi
  rcases Int.lt_or_le (start + i) (base + size) with hlt | hle
  · have hbehind : base + ((xs.drop k).length : ℤ) ≤ start + i := by
      rw [length_drop]
      omega
    rw [cell_of_lt (by omega) hlt, copyIn_of_length_le hbehind, copyIn_of_le (by omega)]
    have hidx : (start + (i : ℤ) - start).toNat = i := by omega
    rw [hidx, getD_eq_getElem?_getD, getElem?_take_of_lt (by omega),
      ← getD_eq_getElem?_getD]
  · rw [cell_of_le hle (by omega), copyIn_of_le (by omega), copyIn_of_lt (by omega)]
    have hidx : k + (start + (i : ℤ) - size - base).toNat = i := by omega
    rw [getD_eq_getElem?_getD, getElem?_drop, hidx, ← getD_eq_getElem?_getD]

/-- What is stored is read back. -/
theorem Stored.contents_self (h : Stored m m' base size start xs) (hfits : xs.length ≤ size) :
    contents m' base size start xs.length = xs := by
  apply ext_getElem (length_contents _)
  intro i hi hi'
  rw [getElem_contents, h i (by omega), getD_eq_getElem _ _ hi']

/-- Elements before those stored stay. -/
theorem Stored.contents_before {n : ℕ} (h : Stored m m' base size (cell base size start n) xs)
    (hfits : n + xs.length ≤ size) :
    contents m' base size start n = contents m base size start n := by
  apply contents_congr
  intro i hi
  -- The cell follows the first stored one by `size - n + i` cells.
  have hcell : cell base size start i =
      cell base size (cell base size start n) ((size - n + i).toNat : ℕ) := by
    rw [cell_cell, ← cell_add_size]
    congr 1
    omega
  rw [hcell, h _ (by omega), getD_eq_default _ _ (by omega)]

/-- Elements stored behind others are appended. -/
theorem Stored.contents_append {n : ℕ} (h : Stored m m' base size (cell base size start n) xs)
    (hfits : n + xs.length ≤ size) :
    contents m' base size start (n + xs.length) = contents m base size start n ++ xs := by
  rw [contents_add, h.contents_before hfits, h.contents_self (by omega)]

end Stores

end CircularBuffer
