import Mathlib.Data.List.Basic

/-!
# Greedy groups

The numbers `0, 1, 2, …` are put into groups of consecutive ones: each joins the group of the one
before it or begins a new one, by a choice that may depend on all members so far. If the groups
shall have a property that the choice does not ensure, they have it exactly if they are those of the
choice that ensures it.
-/

namespace Mt8169.GreedyGroups

open List

/-- The group of a number, the last member first, without those that join it later. -/
def group (joins : List ℕ → ℕ → Bool) : ℕ → List ℕ
  | 0 => [0]
  | i + 1 => if joins (group joins i) (i + 1) then (i + 1) :: group joins i else [i + 1]

/-- The number is not the first of its group. -/
def joined (joins : List ℕ → ℕ → Bool) : ℕ → Bool
  | 0 => false
  | i + 1 => joins (group joins i) (i + 1)

section Members

variable {joins : List ℕ → ℕ → Bool} {i b k : ℕ}

theorem group_of_not_joined (h : joined joins i = false) : group joins i = [i] := by
  cases i with
  | zero => rfl
  | succ i =>
    rw [joined] at h
    rw [group, h, if_neg Bool.false_ne_true]

theorem group_of_joined (h : joined joins (i + 1) = true) :
    group joins (i + 1) = (i + 1) :: group joins i := by
  rw [joined] at h
  rw [group, if_pos h]

theorem group_ne_nil (joins : List ℕ → ℕ → Bool) (i : ℕ) : group joins i ≠ [] := by
  cases i with
  | zero => exact cons_ne_nil _ _
  | succ i =>
    rw [group]
    split <;> exact cons_ne_nil _ _

/-- A group in closed form. -/
theorem group_add (hfirst : joined joins b = false)
    (hothers : ∀ j, b < j → j ≤ b + k → joined joins j = true) :
    group joins (b + k) = (range' b (k + 1)).reverse := by
  induction k with
  | zero => exact group_of_not_joined hfirst
  | succ k ih =>
    have hlast : joined joins (b + k + 1) = true := hothers _ (by omega) (by omega)
    have hrest := ih fun j hlo hhi => hothers j hlo (by omega)
    have hrange : range' b (k + 1 + 1) = range' b (k + 1) ++ [b + (k + 1)] :=
      range'_1_concat
    rw [← Nat.add_assoc, group_of_joined hlast, hrest, hrange, reverse_append,
      reverse_singleton, singleton_append, Nat.add_assoc]

theorem exists_first (joins : List ℕ → ℕ → Bool) (i : ℕ) :
    ∃ b k, b + k = i ∧ joined joins b = false ∧
      ∀ j, b < j → j ≤ b + k → joined joins j = true := by
  induction i with
  | zero => exact ⟨0, 0, rfl, rfl, fun j hlo hhi => by omega⟩
  | succ i ih =>
    cases hjoined : joined joins (i + 1) with
    | false => exact ⟨i + 1, 0, rfl, hjoined, fun j hlo hhi => by omega⟩
    | true =>
      obtain ⟨b, k, rfl, hfirst, hothers⟩ := ih
      refine ⟨b, k + 1, rfl, hfirst, fun j hlo hhi => ?_⟩
      rcases Nat.lt_or_ge (b + k) j with hlt | hle
      · obtain rfl : j = b + k + 1 := by omega
        exact hjoined
      · exact hothers j hlo hle

end Members

/-- A number only joins if the group has the property with it. -/
def ensuring (joins : List ℕ → ℕ → Bool) (good : List ℕ → Bool) (g : List ℕ) (i : ℕ) : Bool :=
  joins g i && good (i :: g)

section Ensuring

variable {joins : List ℕ → ℕ → Bool} {good : List ℕ → Bool}

/-- Groups that are all good are those of the rule that checks it. -/
theorem group_ensuring {n : ℕ} (hgood : ∀ i < n, good (group joins i) = true) {i : ℕ}
    (hi : i < n) : group (ensuring joins good) i = group joins i := by
  induction i with
  | zero => rfl
  | succ i ih =>
    have heq := ih (by omega)
    have hnext := hgood (i + 1) hi
    rw [group, heq, group, ensuring]
    rw [group] at hnext
    cases hjoins : joins (group joins i) (i + 1) with
    | false => rfl
    | true =>
      rw [hjoins, if_pos rfl] at hnext
      rw [hnext, Bool.and_self]

/-- All groups are good exactly if no join makes a bad one. -/
theorem forall_good_iff (joins : List ℕ → ℕ → Bool) (hone : ∀ i, good [i] = true) {n : ℕ} :
    (∀ i < n, good (group joins i) = true) ↔
      ∀ i, i + 1 < n → joins (group (ensuring joins good) i) (i + 1) = true →
        good ((i + 1) :: group (ensuring joins good) i) = true := by
  constructor
  · intro hgood i hi hjoins
    have hnext := hgood (i + 1) hi
    rw [group_ensuring hgood (by omega)] at hjoins ⊢
    rwa [group, if_pos hjoins] at hnext
  · intro hout
    -- the groups are the same, and those of the other choice have the property
    have hboth (i : ℕ) (hi : i < n) : group joins i = group (ensuring joins good) i ∧
        good (group joins i) = true := by
      induction i with
      | zero => exact ⟨rfl, hone 0⟩
      | succ i ih =>
        obtain ⟨heq, hgood⟩ := ih (by omega)
        have hnext := hout i hi
        rw [← heq] at hnext
        rw [group, group, ← heq, ensuring]
        cases hjoins : joins (group joins i) (i + 1) with
        | false => exact ⟨rfl, hone (i + 1)⟩
        | true =>
          rw [hnext hjoins]
          exact ⟨rfl, hnext hjoins⟩
    exact fun i hi => (hboth i hi).2

end Ensuring

end Mt8169.GreedyGroups
