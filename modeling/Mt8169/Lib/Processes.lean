import Mathlib.Algebra.Ring.Nat

/-!
# Processes over a shared state

Any number of processes, each with a state of its own, move one at a time over a shared state. There
are two rules for invariants: a counter of the shared state is the sum of a weight over the
processes, and what holds of each process and the shared state is kept by the moves of all.
-/

namespace Processes

open List

variable {S P : Type*}

/-- The shared state with the states of the processes. -/
structure System (S P : Type*) where
  shared : S
  procs : List P

namespace System

/-- The process with an index moves. -/
def move (advance : S → ℕ → P → P × S) (s : System S P) (i : ℕ) : System S P :=
  match s.procs[i]? with
  | none => s
  | some p => ⟨(advance s.shared i p).2, s.procs.set i (advance s.shared i p).1⟩

/-- The sum of a weight over the processes. -/
def total (weight : P → ℕ) (ps : List P) : ℕ := (ps.map weight).sum

variable (weight : P → ℕ) {i : ℕ} {advance : S → ℕ → P → P × S}

theorem total_append (ps : List P) (p : P) :
    total weight (ps ++ [p]) = total weight ps + weight p := by
  simp [total]

/-- The total after one process has changed. -/
theorem total_set {ps : List P} {p : P} (h : ps[i]? = some p) (q : P) :
    total weight (ps.set i q) + weight p = total weight ps + weight q := by
  induction ps generalizing i with
  | nil => simp at h
  | cons x ps ih =>
    cases i with
    | zero =>
      obtain rfl : x = p := by simpa using h
      simp only [total, set_cons_zero, map_cons, sum_cons]
      omega
    | succ i =>
      have htail := ih (by simpa using h)
      simp only [total, set_cons_succ, map_cons, sum_cons] at htail ⊢
      omega

theorem weight_le_total {ps : List P} {p : P} (h : p ∈ ps) : weight p ≤ total weight ps := by
  induction ps with
  | nil => simp at h
  | cons x ps ih =>
    simp only [total, map_cons, sum_cons] at ih ⊢
    rcases mem_cons.mp h with rfl | htail
    · omega
    · have := ih htail
      omega

/-- A count that each step keeps in line with the weights stays in line. -/
theorem count_move {count : S → ℕ} {s : System S P}
    (hcount : count s.shared = total weight s.procs)
    (hstep : ∀ p, s.procs[i]? = some p → weight p ≤ count s.shared →
      count (advance s.shared i p).2 + weight p =
        count s.shared + weight (advance s.shared i p).1) :
    count (s.move advance i).shared = total weight (s.move advance i).procs := by
  unfold move
  cases hp : s.procs[i]? with
  | none => exact hcount
  | some p =>
    have hle := weight_le_total weight (mem_of_getElem? hp)
    have hset := total_set weight hp (advance s.shared i p).1
    have hone := hstep p hp (by omega)
    simp only
    omega

/-- A property of all processes, from the one that moves and the others. -/
theorem forall_move {holds : S → ℕ → P → Prop} {s : System S P}
    (hall : ∀ j q, s.procs[j]? = some q → holds s.shared j q)
    (hself : ∀ p, s.procs[i]? = some p →
      holds (advance s.shared i p).2 i (advance s.shared i p).1)
    (hother : ∀ p j q, s.procs[i]? = some p → j ≠ i → s.procs[j]? = some q →
      holds (advance s.shared i p).2 j q) :
    ∀ j q, (s.move advance i).procs[j]? = some q → holds (s.move advance i).shared j q := by
  intro j q hq
  unfold move at hq ⊢
  cases hp : s.procs[i]? with
  | none =>
    rw [hp] at hq
    exact hall j q hq
  | some p =>
    rw [hp] at hq
    simp only at hq ⊢
    by_cases hj : j = i
    · subst hj
      rw [List.getElem?_set_self (List.getElem?_eq_some_iff.mp hp).1] at hq
      obtain rfl := Option.some.inj hq
      exact hself p hp
    · rw [getElem?_set_ne (Ne.symm hj)] at hq
      exact hother p j q hp hj hq

end System

end Processes
