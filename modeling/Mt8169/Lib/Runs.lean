import Mathlib.Data.Nat.Notation

/-!
# Runs of a step function

`Reaches` collects the states of all runs of a step function from a start state whose steps meet a
given condition. An invariant of such runs holds at the start and is kept by every step that meets
the condition.
-/

namespace Runs

open List

variable {S E : Type*} {step : S → E → S} {ok ok' : S → E → Prop} {init s : S} {es : List E}

/-- The states reached from `init` by steps that all meet the condition `ok`. -/
inductive Reaches (step : S → E → S) (ok : S → E → Prop) (init : S) : S → Prop
  | start : Reaches step ok init init
  | next {s : S} {e : E} : Reaches step ok init s → ok s e → Reaches step ok init (step s e)

/-- The invariant rule. -/
theorem Reaches.invariant {inv : S → Prop} (h : Reaches step ok init s) (hinit : inv init)
    (hstep : ∀ s e, inv s → ok s e → inv (step s e)) : inv s := by
  induction h with
  | start => exact hinit
  | next _ hok ih => exact hstep _ _ ih hok

/-- The steps of a finite run from `s` all meet the condition. -/
def RunOk (step : S → E → S) (ok : S → E → Prop) (s : S) : List E → Prop
  | [] => True
  | e :: es => ok s e ∧ RunOk step ok (step s e) es

instance RunOk.decidable [∀ s e, Decidable (ok s e)] :
    ∀ (s : S) (es : List E), Decidable (RunOk step ok s es)
  | _, [] => .isTrue trivial
  | s, e :: es =>
    have := RunOk.decidable (step s e) es
    inferInstanceAs (Decidable (ok s e ∧ RunOk step ok (step s e) es))

/-- A finite run whose steps meet the condition reaches its end. -/
theorem Reaches.foldl (h : Reaches step ok init s) (hes : RunOk step ok s es) :
    Reaches step ok init (es.foldl step s) := by
  induction es generalizing s with
  | nil => exact h
  | cons e es ih => exact ih (h.next hes.1) hes.2

/-- If steps are good exactly under a condition, so are runs. -/
theorem forall_prefix_iff_runOk {inv good : S → Prop} (hgood : ∀ s, inv s → good s)
    (hstep : ∀ s e, inv s → (good (step s e) ↔ ok s e))
    (hkeep : ∀ s e, inv s → ok s e → inv (step s e)) (hinit : inv init) (es : List E) :
    (∀ pre, pre <+: es → good (pre.foldl step init)) ↔ RunOk step ok init es := by
  induction es generalizing init with
  | nil => simp [RunOk, hgood init hinit]
  | cons e es ih =>
    constructor
    · intro hall
      have hok : ok init e := by
        rw [← hstep init e hinit]
        exact hall [e] (by simp)
      refine ⟨hok, (ih (hkeep init e hinit hok)).mp ?_⟩
      intro pre hpre
      exact hall (e :: pre) (cons_prefix_cons.mpr ⟨rfl, hpre⟩)
    · rintro ⟨hok, hrest⟩ pre hpre
      rcases pre with _ | ⟨e', pre⟩
      · exact hgood init hinit
      · obtain ⟨rfl, hpre'⟩ := cons_prefix_cons.mp hpre
        exact (ih (hkeep init e' hinit hok)).mpr hrest pre hpre'

/-- The condition at every place of a run. -/
theorem runOk_iff_forall_split :
    RunOk step ok init es ↔
      ∀ pre e post, es = pre ++ e :: post → ok (pre.foldl step init) e := by
  induction es generalizing init with
  | nil => simp [RunOk]
  | cons e es ih =>
    constructor
    · rintro ⟨hok, hrest⟩ pre e' post heq
      rcases pre with _ | ⟨a, pre⟩
      · obtain ⟨rfl, -⟩ := cons.inj heq
        exact hok
      · obtain ⟨rfl, htail⟩ := cons.inj heq
        exact ih.mp hrest pre e' post htail
    · intro hall
      refine ⟨hall [] e es rfl, ih.mpr ?_⟩
      intro pre e' post heq
      exact hall (e :: pre) e' post (by rw [heq, cons_append])

/-- Conditions that agree under an invariant have the same runs. -/
theorem runOk_congr (inv : S → Prop)
    (hiff : ∀ s e, inv s → (ok s e ↔ ok' s e)) (hkeep : ∀ s e, inv s → ok s e → inv (step s e))
    (hinit : inv init) (es : List E) : RunOk step ok init es ↔ RunOk step ok' init es := by
  induction es generalizing init with
  | nil => exact Iff.rfl
  | cons e es ih =>
    constructor
    · rintro ⟨hok, hrest⟩
      exact ⟨(hiff init e hinit).mp hok, (ih (hkeep init e hinit hok)).mp hrest⟩
    · rintro ⟨hok', hrest⟩
      have hok := (hiff init e hinit).mpr hok'
      exact ⟨hok, (ih (hkeep init e hinit hok)).mpr hrest⟩

theorem runOk_and :
    RunOk step (fun s e => ok s e ∧ ok' s e) init es ↔
      RunOk step ok init es ∧ RunOk step ok' init es := by
  induction es generalizing init with
  | nil => simp [RunOk]
  | cons e es ih =>
    simp only [RunOk, ih]
    exact and_and_and_comm

/-- What steps give under an invariant holds all along a run. -/
theorem RunOk.good (inv : S → Prop) {good : S → E → Prop} (h : RunOk step ok init es)
    (hgood : ∀ s e, inv s → ok s e → good s e) (hkeep : ∀ s e, inv s → ok s e → inv (step s e))
    (hinit : inv init) : RunOk step good init es := by
  induction es generalizing init with
  | nil => trivial
  | cons e es ih =>
    obtain ⟨hok, hrest⟩ := h
    exact ⟨hgood init e hinit hok, ih hrest (hkeep init e hinit hok)⟩

end Runs
