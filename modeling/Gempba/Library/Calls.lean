import Mathlib.Data.Nat.Notation

/-!
# Programs that call their environment

A program ends with a value, or makes a call and goes on with the answer. Run
against an environment that answers each call by a function, it gives its value
and the calls that it has made.
-/

namespace Calls

set_option autoImplicit false

inductive Program (Op : Type) (Answer : Op → Type) (α : Type) where
  | done (a : α)
  | call (op : Op) (next : Answer op → Program Op Answer α)

namespace Program

variable {Op : Type} {Answer : Op → Type} {α β : Type}

def bind : Program Op Answer α → (α → Program Op Answer β) → Program Op Answer β
  | .done a, f => f a
  | .call op next, f => .call op fun answer => (next answer).bind f

instance : Monad (Program Op Answer) where
  pure := .done
  bind := bind

/-- A single call. -/
def ask (op : Op) : Program Op Answer (Answer op) := .call op .done

variable (answers : ∀ op, Answer op)

def run : Program Op Answer α → α × List Op
  | .done a => (a, [])
  | .call op next => ((next (answers op)).run.1, op :: (next (answers op)).run.2)

theorem run_pure (a : α) : run answers (pure a : Program Op Answer α) = (a, []) := rfl

theorem run_ask (op : Op) : run answers (ask op) = (answers op, [op]) := rfl

theorem run_bind (x : Program Op Answer α) (f : α → Program Op Answer β) :
    run answers (x >>= f) =
      ((run answers (f (run answers x).1)).1,
        (run answers x).2 ++ (run answers (f (run answers x).1)).2) := by
  induction x with
  | done a => rfl
  | call op next ih =>
    have hrest : run answers ((next (answers op)).bind f) = _ := ih (answers op)
    change run answers (.call op fun answer => (next answer).bind f) = _
    rw [run, hrest]
    rfl

end Program

end Calls
