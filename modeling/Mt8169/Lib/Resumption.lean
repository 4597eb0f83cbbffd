import Mathlib.Data.Nat.Notation

/-!
# Programs of atomic operations

A program does one atomic operation on a shared state after another, depending on the answers, and
between two of them other programs may change the state. `Safe` is the assertion that a program can
go on: whatever the others do within `rely`, the next operation meets `guar`, and the rest is safe
after it. It is proved by going through the program once, and is kept by the steps of the program
and of the others.
-/

namespace Resumption

variable {S O R : Type*}

/-- A program with operations in `O` and answers in `R`. -/
inductive Prog (O R : Type*) where
  | done
  | op (o : O) (k : R → Prog O R)

namespace Prog

/-- The operation that the program does next. -/
def head? : Prog O R → Option O
  | done => none
  | op o _ => some o

def isDone : Prog O R → Bool
  | done => true
  | op _ _ => false

/-- The program does its next operation. -/
def run (exec : S → O → R × S) : Prog O R → S → Prog O R × S
  | done, s => (done, s)
  | op o k, s => (k (exec s o).1, (exec s o).2)

/-- The program can go on from a state and ends with `post`, if the changes that the others make
before an operation are within `rely`. -/
def Safe (exec : S → O → R × S) (rely : O → S → S → Prop) (guar : S → O → Prop)
    (post : S → Prop) : Prog O R → S → Prop
  | done, s => post s
  | op o k, s => ∀ s', rely o s s' →
      guar s' o ∧ Safe exec rely guar post (k (exec s' o).1) (exec s' o).2

variable {exec : S → O → R × S} {rely : O → S → S → Prop} {guar : S → O → Prop}
  {post : S → Prop} {p : Prog O R} {s s' : S}

section

variable (h : p.Safe exec rely guar post s)
include h

/-- Safety is stable under what the others do. -/
theorem Safe.stable (htrans : ∀ o s1 s2 s3, rely o s1 s2 → rely o s2 s3 → rely o s1 s3)
    (hpost : p.isDone = true → post s → post s') (hrely : ∀ o ∈ p.head?, rely o s s') :
    p.Safe exec rely guar post s' := by
  cases p with
  | done => exact hpost rfl h
  | op o k => exact fun s'' hs'' => h s'' (htrans o s s' s'' (hrely o rfl) hs'')

theorem Safe.done_post (hdone : p.isDone = true) : post s := by
  cases p with
  | done => exact h
  | op o k => simp [isDone] at hdone

theorem Safe.head_guar {o : O} (ho : o ∈ p.head?) (hrefl : rely o s s) : guar s o := by
  cases p with
  | done => cases ho
  | op o' k =>
    obtain rfl := Option.some.inj ho
    exact (h s hrefl).1

/-- A step of a safe program leaves a safe program. -/
theorem Safe.run (hrefl : ∀ o ∈ p.head?, rely o s s) :
    (p.run exec s).1.Safe exec rely guar post (p.run exec s).2 := by
  cases p with
  | done => exact h
  | op o k => exact (h s (hrefl o rfl)).2

end

end Prog

end Resumption
