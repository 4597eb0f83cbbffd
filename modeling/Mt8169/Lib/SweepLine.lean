import Mathlib.Algebra.Order.BigOperators.Group.Finset
import Mathlib.Algebra.Ring.Int.Defs
import Mathlib.Data.List.TakeWhile

/-!
# Sweep lines

Every interval has a weight and two entries, where it begins and where it ends. In a list of the
entries sorted by their keys, begins in front of ends, the intervals that are active after a part of
the list cover a common point, and those that cover a point are active after some part of the list.
So the largest sum of weights in the list is the largest weight over a point.
-/

namespace SweepLine

open List

/-- Closed intervals with positive weights, and the entries for their begins and ends. -/
structure Spans (ι α : Type) where
  key : α → ℤ
  weight : α → ℤ
  first : ι → α
  last : ι → α
  w : ι → ℤ
  pos : ∀ i, 0 < w i
  weight_first : ∀ i, weight (first i) = w i
  weight_last : ∀ i, weight (last i) = -w i
  key_le : ∀ i, key (first i) ≤ key (last i)
  first_inj : Function.Injective first
  last_inj : Function.Injective last

variable {ι α : Type}

namespace Spans

variable (S : Spans ι α)

/-- The interval covers a point. -/
def Covers (x : ℤ) (i : ι) : Prop := S.key (S.first i) ≤ x ∧ x ≤ S.key (S.last i)

instance (x : ℤ) : DecidablePred (S.Covers x) := fun _ => inferInstanceAs (Decidable (_ ∧ _))

/-- The weight over a point. -/
def load (A : Finset ι) (x : ℤ) : ℤ := ∑ i ∈ A with S.Covers x i, S.w i

/-- One entry may stand in front of another one. -/
def Before (a b : α) : Prop :=
  S.key a < S.key b ∨ (S.key a = S.key b ∧ (0 < S.weight a ∨ S.weight b < 0))

/-- A sorted list of the entries of some intervals. -/
structure Sweeps (A : Finset ι) (es : List α) : Prop where
  nodup : es.Nodup
  mem : ∀ e, e ∈ es ↔ ∃ i ∈ A, e = S.first i ∨ e = S.last i
  sorted : es.Pairwise S.Before

variable {S}

theorem first_ne_last (i j : ι) : S.first i ≠ S.last j := by
  intro heq
  have hweight := congrArg S.weight heq
  rw [S.weight_first, S.weight_last] at hweight
  have hi := S.pos i
  have hj := S.pos j
  omega

theorem Before.key_le {a b : α} (h : S.Before a b) : S.key a ≤ S.key b := by
  rcases h with hlt | heq <;> omega

theorem not_before_last_first (i : ι) : ¬S.Before (S.last i) (S.first i) := by
  have hle := S.key_le i
  have hpos := S.pos i
  rw [Before, S.weight_first, S.weight_last]
  omega

theorem w_nonneg (i : ι) : 0 ≤ S.w i := (S.pos i).le

/-- More spans, more load. -/
theorem load_mono {A B : Finset ι} (hsub : A ⊆ B) (x : ℤ) : S.load A x ≤ S.load B x := by
  apply Finset.sum_le_sum_of_subset_of_nonneg
  · exact Finset.filter_subset_filter _ hsub
  · exact fun i _ _ => w_nonneg i

theorem load_le_sum (A : Finset ι) (x : ℤ) : S.load A x ≤ ∑ i ∈ A, S.w i :=
  Finset.sum_le_sum_of_subset_of_nonneg (Finset.filter_subset _ _) fun i _ _ => w_nonneg i

theorem load_eq_sum {A : Finset ι} {x : ℤ} (h : ∀ i ∈ A, S.Covers x i) :
    S.load A x = ∑ i ∈ A, S.w i := by
  rw [load, Finset.filter_true_of_mem h]

theorem Sweeps.first_mem {A : Finset ι} {p q : List α} {i : ι} (h : S.Sweeps A (p ++ q))
    (hi : i ∈ A) (hlast : S.last i ∈ p) : S.first i ∈ p := by
  have hmem : S.first i ∈ p ++ q := (h.mem _).mpr ⟨i, hi, Or.inl rfl⟩
  rcases mem_append.mp hmem with hp | hq
  · exact hp
  · exact absurd ((pairwise_append.mp h.sorted).2.2 _ hlast _ hq) (not_before_last_first i)

section Active

variable [DecidableEq α] {A : Finset ι} {p q es : List α} {e : α} {i : ι} {x : ℤ}

variable (S) in
/-- The intervals that have begun and not ended in a part of a list. -/
def active (A : Finset ι) (p : List α) : Finset ι :=
  A.filter fun i => S.first i ∈ p ∧ S.last i ∉ p

theorem mem_active : i ∈ S.active A p ↔ i ∈ A ∧ S.first i ∈ p ∧ S.last i ∉ p := Finset.mem_filter

theorem active_subset : S.active A p ⊆ A := Finset.filter_subset _ _

theorem active_nil : S.active A [] = ∅ := by
  simp [active]

/-- The sum of the weights so far is the one of the active spans. -/
theorem Sweeps.sum_eq [DecidableEq ι] (h : S.Sweeps A (p ++ q)) :
    (p.map S.weight).sum = ∑ i ∈ S.active A p, S.w i := by
  have hnodup : p.Nodup := (nodup_append.mp h.nodup).1
  have hsplit : p.toFinset = (A.filter fun i => S.first i ∈ p).image S.first ∪
      (A.filter fun i => S.last i ∈ p).image S.last := by
    ext e
    rw [mem_toFinset, Finset.mem_union, Finset.mem_image, Finset.mem_image]
    constructor
    · intro he
      obtain ⟨i, hi, rfl | rfl⟩ := (h.mem e).mp (mem_append_left q he)
      · exact Or.inl ⟨i, Finset.mem_filter.mpr ⟨hi, he⟩, rfl⟩
      · exact Or.inr ⟨i, Finset.mem_filter.mpr ⟨hi, he⟩, rfl⟩
    · rintro (⟨i, hi, rfl⟩ | ⟨i, hi, rfl⟩)
      all_goals exact (Finset.mem_filter.mp hi).2
  have hdisj : Disjoint ((A.filter fun i => S.first i ∈ p).image S.first)
      ((A.filter fun i => S.last i ∈ p).image S.last) := by
    rw [Finset.disjoint_left]
    intro e hfirst hlast
    obtain ⟨i, -, rfl⟩ := Finset.mem_image.mp hfirst
    obtain ⟨j, -, heq⟩ := Finset.mem_image.mp hlast
    exact first_ne_last i j heq.symm
  have hended : (A.filter fun i => S.last i ∈ p) ⊆ A.filter fun i => S.first i ∈ p := by
    intro i hi
    obtain ⟨hA, hlast⟩ := Finset.mem_filter.mp hi
    exact Finset.mem_filter.mpr ⟨hA, h.first_mem hA hlast⟩
  have hactive : (A.filter fun i => S.first i ∈ p) \ (A.filter fun i => S.last i ∈ p) =
      S.active A p := by
    ext i
    rw [Finset.mem_sdiff, Finset.mem_filter, Finset.mem_filter, mem_active]
    tauto
  calc (p.map S.weight).sum
      = ∑ e ∈ p.toFinset, S.weight e := (sum_toFinset _ hnodup).symm
    _ = ∑ i ∈ A with S.first i ∈ p, S.w i + ∑ i ∈ A with S.last i ∈ p, -S.w i := by
        rw [hsplit, Finset.sum_union hdisj, Finset.sum_image (S.first_inj.injOn),
          Finset.sum_image (S.last_inj.injOn)]
        simp only [S.weight_first, S.weight_last]
    _ = ∑ i ∈ S.active A p, S.w i := by
        rw [← Finset.sum_sdiff hended, hactive, Finset.sum_neg_distrib]
        omega

/-- An active span covers the present place. -/
theorem Sweeps.covers (h : S.Sweeps A (p ++ e :: q)) (hi : i ∈ S.active A (p ++ [e])) :
    S.Covers (S.key e) i := by
  obtain ⟨hA, hfirst, hlast⟩ := mem_active.mp hi
  obtain ⟨-, hrest, hpq⟩ := pairwise_append.mp h.sorted
  constructor
  · rcases mem_append.mp hfirst with hp | he
    · exact (hpq _ hp e mem_cons_self).key_le
    · rw [mem_singleton.mp he]
  · have hmem : S.last i ∈ p ++ e :: q := (h.mem _).mpr ⟨i, hA, Or.inr rfl⟩
    have hq : S.last i ∈ q := by
      simp only [mem_append, mem_cons, not_mem_nil, or_false, not_or] at hmem hlast
      tauto
    exact ((pairwise_cons.mp hrest).1 _ hq).key_le

theorem Sweeps.sum_le_load (h : S.Sweeps A (p ++ e :: q)) :
    ∑ i ∈ S.active A (p ++ [e]), S.w i ≤ S.load A (S.key e) := by
  rw [← load_eq_sum fun i hi => h.covers hi]
  exact load_mono active_subset _

/-- Some prefix has the spans over a place as the active ones. -/
theorem Sweeps.exists_active_eq (h : S.Sweeps A es) (x : ℤ) :
    ∃ p q, es = p ++ q ∧ S.active A p = A.filter (S.Covers x) := by
  -- up to the begins at the point
  let P : α → Bool := fun e => decide (S.key e < x ∨ (S.key e = x ∧ 0 < S.weight e))
  have hpast {a b : α} (hab : S.Before a b) (hb : P b = true) : P a = true := by
    simp only [P, decide_eq_true_eq, Before] at hab hb ⊢
    omega
  have hin (e : α) (he : e ∈ es) : e ∈ es.takeWhile P ↔ P e = true := by
    refine ⟨fun hmem => mem_takeWhile_imp hmem, fun hP => ?_⟩
    by_contra hnot
    have hdrop : e ∈ es.dropWhile P := by
      rw [← takeWhile_append_dropWhile (p := P) (l := es), mem_append] at he
      exact he.resolve_left hnot
    cases hd : es.dropWhile P with
    | nil =>
      rw [hd] at hdrop
      cases hdrop
    | cons a l =>
      have ha : P a = false := by
        have := head?_dropWhile_not P es
        rw [hd] at this
        simpa using this
      have hsorted : (a :: l).Pairwise S.Before := by
        rw [← hd]
        exact h.sorted.sublist (dropWhile_sublist P)
      rw [hd] at hdrop
      rcases mem_cons.mp hdrop with rfl | hl
      · rw [ha] at hP
        cases hP
      · rw [hpast ((pairwise_cons.mp hsorted).1 e hl) hP] at ha
        cases ha
  refine ⟨es.takeWhile P, es.dropWhile P, takeWhile_append_dropWhile.symm, ?_⟩
  ext i
  rw [mem_active, Finset.mem_filter]
  refine and_congr_right fun hi => ?_
  have hpos := S.pos i
  rw [hin _ ((h.mem _).mpr ⟨i, hi, Or.inl rfl⟩), hin _ ((h.mem _).mpr ⟨i, hi, Or.inr rfl⟩)]
  simp only [P, decide_eq_true_eq, S.weight_first, S.weight_last, Covers]
  omega

theorem Sweeps.exists_sum_eq_load [DecidableEq ι] (h : S.Sweeps A es) (x : ℤ) :
    ∃ p q, es = p ++ q ∧ (p.map S.weight).sum = S.load A x := by
  obtain ⟨p, q, rfl, hactive⟩ := h.exists_active_eq x
  exact ⟨p, q, rfl, by rw [h.sum_eq, hactive, load]⟩

theorem Sweeps.active_first [DecidableEq ι] (h : S.Sweeps A (p ++ S.first i :: q)) (hi : i ∈ A) :
    i ∉ S.active A p ∧ S.active A (p ++ [S.first i]) = insert i (S.active A p) := by
  have hfirst : S.first i ∉ p := fun hmem =>
    (nodup_append.mp h.nodup).2.2 _ hmem _ mem_cons_self rfl
  have hlast : S.last i ∉ p := fun hmem => hfirst (h.first_mem hi hmem)
  refine ⟨fun hmem => hfirst (mem_active.mp hmem).2.1, ?_⟩
  ext j
  rw [Finset.mem_insert, mem_active, mem_active, mem_append, mem_append,
    mem_singleton, mem_singleton, S.first_inj.eq_iff]
  have hne := (first_ne_last (S := S) i j).symm
  by_cases hji : j = i
  · subst hji
    simp [hi, hne, hlast]
  · simp [hji, hne]

theorem active_last [DecidableEq ι] (A : Finset ι) (p : List α) (i : ι) :
    S.active A (p ++ [S.last i]) = (S.active A p).erase i := by
  ext j
  rw [Finset.mem_erase, mem_active, mem_active, mem_append, mem_append,
    mem_singleton, mem_singleton, S.last_inj.eq_iff]
  have hne := first_ne_last (S := S) j i
  by_cases hji : j = i
  · simp [hji]
  · simp [hji, hne]

theorem Sweeps.active_all (h : S.Sweeps A es) : S.active A es = ∅ := by
  rw [Finset.eq_empty_iff_forall_notMem]
  intro i hi
  obtain ⟨hA, -, hlast⟩ := mem_active.mp hi
  exact hlast ((h.mem _).mpr ⟨i, hA, Or.inr rfl⟩)

end Active

end Spans

end SweepLine
