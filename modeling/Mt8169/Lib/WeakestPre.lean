import Mathlib.Data.Int.Notation
import Mathlib.Data.Nat.Notation
import Mathlib.Tactic.SplitIfs

/-!
# Weakest preconditions for programs that may fault

A program changes a state and returns a value, or stops with a fault. Its weakest precondition holds
in the states from which it returns without a fault and with the postcondition. Loops count an index
up or down by one and may be left early.
-/

namespace WeakestPre

open List

variable {σ ε α β : Type}

/-- A program on states `σ` that may stop with a fault in `ε`. -/
abbrev Prog (σ ε α : Type) : Type := StateT σ (Except ε) α

variable {m : Prog σ ε α} {Q Q' : α → σ → Prop} {s : σ} {body : ℤ → α → Prog σ ε (Bool × α)}
  {acc : α} {lo hi : ℤ}

/-- The program returns from the state without a fault and with the postcondition. -/
def wp (m : Prog σ ε α) (Q : α → σ → Prop) (s : σ) : Prop :=
  match m s with
  | .ok (a, s') => Q a s'
  | .error _ => False

theorem wp_iff : wp m Q s ↔ ∃ a s', m s = .ok (a, s') ∧ Q a s' := by
  unfold wp
  cases hrun : m s with
  | error e => simp
  | ok r =>
    constructor
    · intro hQ
      exact ⟨r.1, r.2, rfl, hQ⟩
    · rintro ⟨a, s', heq, hQ⟩
      obtain rfl := Except.ok.inj heq
      exact hQ

theorem wp_of_run {s' : σ} {a : α} (hrun : m s = .ok (a, s')) : wp m Q s ↔ Q a s' := by
  unfold wp
  rw [hrun]

instance {m : Prog σ ε α} {Q : α → σ → Prop} {s : σ} [∀ a s', Decidable (Q a s')] :
    Decidable (wp m Q s) :=
  match hrun : m s with
  | .ok (a, s') => decidable_of_iff (Q a s') (wp_of_run hrun).symm
  | .error _ => .isFalse fun hwp => by
      obtain ⟨a, s', hok, -⟩ := wp_iff.mp hwp
      rw [hrun] at hok
      cases hok

@[simp]
theorem wp_pure (a : α) (Q : α → σ → Prop) (s : σ) : wp (pure a : Prog σ ε α) Q s ↔ Q a s := Iff.rfl

/-- The rule for two programs in a row. -/
@[simp]
theorem wp_bind (m : Prog σ ε α) (f : α → Prog σ ε β) (Q : β → σ → Prop) (s : σ) :
    wp (m >>= f) Q s ↔ wp m (fun a s' => wp (f a) Q s') s := by
  simp only [wp, bind, StateT.bind, Except.bind]
  cases m s <;> rfl

@[simp]
theorem wp_get (Q : σ → σ → Prop) (s : σ) : wp (get : Prog σ ε σ) Q s ↔ Q s s := Iff.rfl

@[simp]
theorem wp_modify (f : σ → σ) (Q : PUnit → σ → Prop) (s : σ) :
    wp (modify f : Prog σ ε PUnit) Q s ↔ Q ⟨⟩ (f s) := Iff.rfl

@[simp]
theorem wp_throw (e : ε) (Q : α → σ → Prop) (s : σ) : ¬wp (throw e : Prog σ ε α) Q s := id

@[simp]
theorem wp_ite (c : Prop) [Decidable c] (m m' : Prog σ ε α) (Q : α → σ → Prop) (s : σ) :
    wp (if c then m else m') Q s ↔ (c → wp m Q s) ∧ (¬c → wp m' Q s) := by
  split_ifs with hc <;> simp [hc]

/-- The rule of consequence. -/
theorem wp.mono (hwp : wp m Q s) (hle : ∀ a s', Q a s' → Q' a s') : wp m Q' s := by
  rw [wp_iff] at hwp ⊢
  obtain ⟨a, s', hrun, hQ⟩ := hwp
  exact ⟨a, s', hrun, hle a s' hQ⟩

theorem wp.seq {f : α → Prog σ ε β} {R : β → σ → Prop} (hwp : wp m Q s)
    (hf : ∀ a s', Q a s' → wp (f a) R s') : wp (m >>= f) R s := by
  rw [wp_bind]
  exact hwp.mono hf

/-- A step that is only made under a condition, in front of the rest. -/
theorem wp.ite_seq {c : Prop} [Decidable c] {m : Prog σ ε Unit} {m' : Prog σ ε α} {R : σ → Prop}
    (hwp : wp (if c then m else pure ()) (fun _ => R) s) (hrest : ∀ s', R s' → wp m' Q s') :
    wp (if c then m >>= fun _ => m' else m') Q s := by
  split at hwp
  · rw [if_pos ‹_›]
    exact hwp.seq fun _ => hrest
  · rw [if_neg ‹_›]
    exact hrest s hwp

theorem wp_read (f : σ → Prog σ ε α) (Q : α → σ → Prop) (s : σ) :
    wp (get >>= f) Q s ↔ wp (f s) Q s := by
  rw [wp_bind, wp_get]

section Round

variable {A B : Bool × α → σ → Prop} {acc : α}

/-- A round of a loop that goes on. -/
theorem wp_continue : wp (pure (true, acc) : Prog σ ε (Bool × α))
    (fun r s' => (r.1 = true → A r s') ∧ (r.1 = false → B r s')) s ↔ A (true, acc) s := by
  simp

/-- A round of a loop that is the last one. -/
theorem wp_break : wp (pure (false, acc) : Prog σ ε (Bool × α))
    (fun r s' => (r.1 = true → A r s') ∧ (r.1 = false → B r s')) s ↔ B (false, acc) s := by
  simp

end Round

theorem wp.and (hwp : wp m Q s) (hwp' : wp m Q' s) : wp m (fun a s' => Q a s' ∧ Q' a s') s := by
  unfold wp at *
  cases hrun : m s with
  | error e => simp [hrun] at hwp
  | ok r =>
    simp only [hrun] at hwp hwp'
    exact ⟨hwp, hwp'⟩

/-- Run the body for `i`, `i + step`, and so on, `n` times at most. The body says whether to go
on. -/
def loop (step : ℤ) (body : ℤ → α → Prog σ ε (Bool × α)) : ℕ → ℤ → α → Prog σ ε α
  | 0, _, acc => pure acc
  | n + 1, i, acc => do
    let r ← body i acc
    if r.1 then loop step body n (i + step) r.2 else pure r.2

/-- The indices from `lo` up to `hi`, without `hi`. -/
def foldUp (lo hi : ℤ) (acc : α) (body : ℤ → α → Prog σ ε (Bool × α)) : Prog σ ε α :=
  loop 1 body (hi - lo).toNat lo acc

/-- The indices from `hi` down to `lo`. -/
def foldDown (hi lo : ℤ) (acc : α) (body : ℤ → α → Prog σ ε (Bool × α)) : Prog σ ε α :=
  loop (-1) body (hi - lo + 1).toNat hi acc

/-- The indices from `lo` up to `hi`, without `hi`, with a body that only changes the state. -/
def forUp (lo hi : ℤ) (body : ℤ → Prog σ ε Unit) : Prog σ ε Unit :=
  foldUp lo hi () fun i _ => do
    body i
    pure (true, ())

/-- The elements of a list. -/
def each : List β → (β → Prog σ ε Unit) → Prog σ ε Unit
  | [], _ => pure ()
  | x :: xs, body => do
    body x
    each xs body

/-- The rule for loops: an invariant by the number of rounds left. -/
theorem wp_loop {step : ℤ} (I : ℕ → ℤ → α → σ → Prop)
    (hbody : ∀ n i acc s, I (n + 1) i acc s → wp (body i acc)
      (fun r s' => (r.1 = true → I n (i + step) r.2 s') ∧ (r.1 = false → Q r.2 s')) s)
    (hend : ∀ i acc s, I 0 i acc s → Q acc s) {n : ℕ} {i : ℤ} (hstart : I n i acc s) :
    wp (loop step body n i acc) Q s := by
  induction n generalizing i acc s with
  | zero => exact hend i acc s hstart
  | succ n ih =>
    rw [loop]
    refine (hbody n i acc s hstart).seq ?_
    rintro ⟨more, acc'⟩ s' ⟨hmore, hdone⟩
    rw [wp_ite]
    refine ⟨fun htrue => ih (hmore htrue), fun hfalse => hdone ?_⟩
    simpa using hfalse

/-- The rule for loops that count up. -/
theorem wp_foldUp (I : ℤ → α → σ → Prop) (hle : lo ≤ hi) (hstart : I lo acc s)
    (hbody : ∀ i acc s, lo ≤ i → i < hi → I i acc s → wp (body i acc)
      (fun r s' => (r.1 = true → I (i + 1) r.2 s') ∧ (r.1 = false → Q r.2 s')) s)
    (hend : ∀ acc s, I hi acc s → Q acc s) : wp (foldUp lo hi acc body) Q s := by
  refine wp_loop (fun n i acc s => i + n = hi ∧ lo ≤ i ∧ I i acc s) ?_ ?_
    ⟨by omega, Int.le_refl lo, hstart⟩
  · rintro n i acc s ⟨hn, hlo, hI⟩
    refine (hbody i acc s hlo (by omega) hI).mono ?_
    rintro r s' ⟨hmore, hdone⟩
    exact ⟨fun htrue => ⟨by omega, by omega, hmore htrue⟩, hdone⟩
  · rintro i acc s ⟨hn, -, hI⟩
    obtain rfl : i = hi := by omega
    exact hend acc s hI

/-- The rule for loops without a result. -/
theorem wp_forUp {body : ℤ → Prog σ ε Unit} (I : ℤ → σ → Prop) {Q : Unit → σ → Prop} (hle : lo ≤ hi)
    (hstart : I lo s)
    (hbody : ∀ i s, lo ≤ i → i < hi → I i s → wp (body i) (fun _ s' => I (i + 1) s') s)
    (hend : ∀ s, I hi s → Q () s) : wp (forUp lo hi body) Q s := by
  apply wp_foldUp (fun i _ => I i) hle hstart
  · intro i _ s hlo hhi hI
    refine (hbody i s hlo hhi hI).seq fun _ s' hI' => ?_
    exact wp_continue.mpr hI'
  · exact fun _ => hend

theorem wp_forUp_first {body : ℤ → Prog σ ε Unit} {Q : Unit → σ → Prop} (hlt : lo < hi)
    (h : wp (forUp lo hi body) Q s) : wp (body lo) (fun _ _ => True) s := by
  obtain ⟨n, hn⟩ : ∃ n, (hi - lo).toNat = n + 1 := ⟨(hi - lo).toNat - 1, by omega⟩
  unfold forUp foldUp at h
  rw [hn, loop, wp_bind, wp_bind] at h
  exact h.mono fun _ _ _ => trivial

/-- The rule for loops that count down. -/
theorem wp_foldDown (I : ℤ → α → σ → Prop) (hle : lo ≤ hi + 1) (hstart : I hi acc s)
    (hbody : ∀ i acc s, lo ≤ i → i ≤ hi → I i acc s → wp (body i acc)
      (fun r s' => (r.1 = true → I (i - 1) r.2 s') ∧ (r.1 = false → Q r.2 s')) s)
    (hend : ∀ acc s, I (lo - 1) acc s → Q acc s) : wp (foldDown hi lo acc body) Q s := by
  refine wp_loop (fun n i acc s => i - n + 1 = lo ∧ i ≤ hi ∧ I i acc s) ?_ ?_
    ⟨by omega, Int.le_refl hi, hstart⟩
  · rintro n i acc s ⟨hn, hhi, hI⟩
    refine (hbody i acc s (by omega) hhi hI).mono ?_
    rintro r s' ⟨hmore, hdone⟩
    exact ⟨fun htrue => ⟨by omega, by omega, hmore htrue⟩, hdone⟩
  · rintro i acc s ⟨hn, -, hI⟩
    obtain rfl : i = lo - 1 := by omega
    exact hend acc s hI

-- Where the body of a loop is known exactly, as a condition under which it returns and the result
-- it then has, the loop is known exactly.

/-- The value of a loop whose body has the value `g`. -/
def loopValue (step : ℤ) (g : ℤ → α → Bool × α) : ℕ → ℤ → α → α
  | 0, _, acc => acc
  | n + 1, i, acc => if (g i acc).1 then loopValue step g n (i + step) (g i acc).2 else (g i acc).2

/-- A loop whose rounds need one condition. -/
theorem wp_loop_iff {step : ℤ} {g : ℤ → α → Bool × α} {C : Prop}
    (hbody : ∀ i acc (Q : Bool × α → σ → Prop) s, wp (body i acc) Q s ↔ C ∧ Q (g i acc) s) (n : ℕ)
    (i : ℤ) (acc : α) (Q : α → σ → Prop) (s : σ) :
    wp (loop step body n i acc) Q s ↔ (n ≠ 0 → C) ∧ Q (loopValue step g n i acc) s := by
  induction n generalizing i acc with
  | zero => simp [loop, loopValue]
  | succ n ih =>
    rw [loop, wp_bind, hbody, wp_ite, loopValue, ih]
    by_cases hmore : (g i acc).1 = true
    · simp only [hmore, forall_const, not_true_eq_false, false_implies, and_true, if_true]
      constructor
      · rintro ⟨hC, -, hQ⟩
        exact ⟨fun _ => hC, hQ⟩
      · rintro ⟨hC, hQ⟩
        exact ⟨hC (by omega), fun _ => hC (by omega), hQ⟩
    · simp [hmore]

/-- The state after the indices `i`, `i + 1`, and so on, `n` of them. -/
def stateUp (f : ℤ → σ → σ) : ℕ → ℤ → σ → σ
  | 0, _, s => s
  | n + 1, i, s => stateUp f n (i + 1) (f i s)

theorem wp_forUp_iff {body : ℤ → Prog σ ε Unit} {f : ℤ → σ → σ} {C : Prop}
    (hbody : ∀ i (Q : Unit → σ → Prop) s, wp (body i) Q s ↔ C ∧ Q () (f i s)) (lo hi : ℤ)
    (Q : Unit → σ → Prop) (s : σ) :
    wp (forUp lo hi body) Q s ↔ (lo < hi → C) ∧ Q () (stateUp f (hi - lo).toNat lo s) := by
  have hloop : ∀ n i s, wp (loop 1 (fun i (_ : Unit) => do body i; pure (true, ())) n i ()) Q s ↔
      (n ≠ 0 → C) ∧ Q () (stateUp f n i s) := by
    intro n
    induction n with
    | zero => simp [loop, stateUp]
    | succ n ih =>
      intro i s
      simp only [loop, wp_bind, hbody, wp_pure, if_true, ih, stateUp]
      constructor
      · rintro ⟨hC, -, hQ⟩
        exact ⟨fun _ => hC, hQ⟩
      · rintro ⟨hC, hQ⟩
        exact ⟨hC (by omega), fun _ => hC (by omega), hQ⟩
  unfold forUp foldUp
  rw [hloop]
  have hcount : (hi - lo).toNat ≠ 0 ↔ lo < hi := by omega
  rw [hcount]

/-- From every state with the invariant the program returns to such a state. -/
def Keeps (I : σ → Prop) (m : Prog σ ε α) : Prop := ∀ s, I s → wp m (fun _ s' => I s') s

section Keeps

variable {I : σ → Prop} {lo hi : ℤ} {f : σ → Prog σ ε β} {body : ℤ → α → Prog σ ε (Bool × α)}

theorem Keeps.pure (a : α) : Keeps I (pure a : Prog σ ε α) := fun _ hI => hI

/-- Programs in a row keep what each of them keeps. -/
theorem Keeps.bind {m : Prog σ ε α} {f : α → Prog σ ε β} (hm : Keeps I m)
    (hf : ∀ a, Keeps I (f a)) : Keeps I (m >>= f) := by
  intro s hI
  rw [wp_bind]
  exact (hm s hI).mono fun a s' hI' => hf a s' hI'

theorem Keeps.read (hf : ∀ s, I s → Keeps I (f s)) : Keeps I (get >>= f) := by
  intro s hI
  rw [wp_read]
  exact hf s hI s hI

theorem Keeps.modify {f : σ → σ} (hf : ∀ s, I s → I (f s)) :
    Keeps I (modify f : Prog σ ε PUnit) := fun s hI => hf s hI

/-- A loop keeps what its rounds keep. -/
theorem Keeps.foldUp {acc : α} (hbody : ∀ i acc, lo ≤ i → i < hi → Keeps I (body i acc)) :
    Keeps I (foldUp lo hi acc body) := by
  intro s hI
  refine wp_loop (fun n i _ s => (n = 0 ∨ lo ≤ i ∧ i + n = hi) ∧ I s) ?_ (fun _ _ _ h => h.2)
    ⟨by omega, hI⟩
  rintro n i acc s ⟨hn, hI⟩
  exact (hbody i acc (by omega) (by omega) s hI).mono fun r s' hI' =>
    ⟨fun _ => ⟨by omega, hI'⟩, fun _ => hI'⟩

theorem Keeps.forUp {body : ℤ → Prog σ ε Unit} (hbody : ∀ i, lo ≤ i → i < hi → Keeps I (body i)) :
    Keeps I (forUp lo hi body) :=
  Keeps.foldUp fun i _ hlo hhi => (hbody i hlo hhi).bind fun _ => Keeps.pure _

theorem Keeps.each {xs : List β} {body : β → Prog σ ε Unit}
    (hbody : ∀ x ∈ xs, Keeps I (body x)) : Keeps I (each xs body) := by
  induction xs with
  | nil => exact Keeps.pure ()
  | cons x xs ih =>
    refine Keeps.bind (hbody x mem_cons_self) fun _ => ih ?_
    intro y hy
    exact hbody y (mem_cons_of_mem x hy)

end Keeps

/-- A pass over parts that do not touch each other. -/
theorem wp_each_parts {δ π ρ : Type} (part : δ → σ → π) (rest : σ → ρ) (R : δ → π → π → Prop)
    {body : δ → Prog σ ε Unit} {ds : List δ} (hnodup : ds.Nodup) {s : σ}
    (hbody : ∀ d ∈ ds, ∀ s', part d s' = part d s → wp (body d) (fun _ s'' =>
      R d (part d s') (part d s'') ∧ (∀ d', d' ≠ d → part d' s'' = part d' s') ∧
        rest s'' = rest s') s') :
    wp (each ds body) (fun _ s' => (∀ d ∈ ds, R d (part d s) (part d s')) ∧
      (∀ d, d ∉ ds → part d s' = part d s) ∧ rest s' = rest s) s := by
  induction ds generalizing s with
  | nil => exact ⟨fun d hd => absurd hd not_mem_nil, fun _ _ => rfl, rfl⟩
  | cons d ds ih =>
    obtain ⟨hd, hnodup⟩ := nodup_cons.mp hnodup
    rw [each]
    refine (hbody d mem_cons_self s rfl).seq ?_
    rintro _ s1 ⟨hstep, hothers, hrest1⟩
    have hsame {d' : δ} (hd' : d' ∈ ds) : part d' s1 = part d' s :=
      hothers d' fun heq => hd (heq ▸ hd')
    refine (ih hnodup (s := s1) ?_).mono ?_
    · intro d' hd' s' hpart
      exact hbody d' (mem_cons_of_mem d hd') s' (hpart.trans (hsame hd'))
    · rintro _ s' ⟨hsteps, hframe, hrest⟩
      refine ⟨?_, ?_, hrest.trans hrest1⟩
      · intro d' hd'
        rcases mem_cons.mp hd' with rfl | hd'
        · rw [hframe d' hd]
          exact hstep
        · have hR := hsteps d' hd'
          rwa [hsame hd'] at hR
      · intro d' hd'
        rw [mem_cons, not_or] at hd'
        exact (hframe d' hd'.2).trans (hothers d' hd'.1)

end WeakestPre
