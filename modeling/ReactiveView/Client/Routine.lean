import ReactiveView.Client.Program

/-!
# Routines

Client programs written in sequence.  A routine is a program with an open end: it says how to go on
from its answer or its failure.  A failure skips the rest of a sequence until it is caught.
-/

namespace ReactiveView

/-- A stretch of client code that answers with an `α` or fails. -/
def Routine (κ σ α : Type) : Type := (Except Failure α → Program κ σ) → Program κ σ

namespace Routine

variable {κ σ α β : Type}

/-! ## 1. Sequences -/

protected def pure (a : α) : Routine κ σ α := fun next => next (.ok a)

protected def bind (x : Routine κ σ α) (f : α → Routine κ σ β) : Routine κ σ β := fun next =>
  x fun
    | .ok a => f a next
    | .error error => next (.error error)

instance : Monad (Routine κ σ) where
  pure := Routine.pure
  bind := Routine.bind

def fail (error : Failure) : Routine κ σ α := fun next => next (.error error)

/-- Answers with the outcome of a routine, be it a failure. -/
def outcome (x : Routine κ σ α) : Routine κ σ (Except Failure α) := fun next =>
  x fun result => next (.ok result)

/-- The program that runs a routine to its end. -/
def program (x : Routine κ σ α) : Program κ σ :=
  x fun
    | .ok _ => .done
    | .error error => .fail error

/-! ## 2. Single requests -/

/-- Asks for an operation. -/
def ask (op : Operation κ) : Routine κ σ op.Reply := fun next => .perform op next

/-- Reads the state of the client. -/
def consult (f : σ → α) : Routine κ σ α := fun next => .consult fun s => next (.ok (f s))

/-- Changes the state of the client. -/
def remember (change : σ → σ) : Routine κ σ Unit := fun next => .remember change (next (.ok ()))

/-- Reads from the page. -/
def look (f : Page κ → α) : Routine κ σ α := fun next => .look fun p => next (.ok (f p))

/-- Lets a watcher collect during a program. -/
def collecting (t : TreeId) (w : WatcherId) (body : Program κ σ) : Routine κ σ Unit :=
  fun next => .collect t w body next

end Routine

end ReactiveView
