import CanTransport.Frame
import CanTransport.Transfer
import CanTransport.Stopwatch

/-! # Moves

One step of an endpoint writes at most one frame. A step is therefore either over, or waits for the
controller to take or refuse one frame and then for a second reading of the clock.
-/
namespace CanTransport

inductive Move (σ : Type) : Type
  | rest (next : σ) (outcome : StepOutcome)
  | write (frame : Frame) (next : Bool → Micros → σ × StepOutcome)

namespace Move
variable {σ τ : Type}

def map (f : σ → τ) : Move σ → Move τ
  | rest s o => rest (f s) o
  | write frame next =>
    write frame fun accepted now => (f (next accepted now).1, (next accepted now).2)

/-- The frame that the step offers to the controller. -/
def frame? : Move σ → Option Frame
  | rest _ _ => none
  | write frame _ => some frame

/-- Where the step ends, given whether an offered frame is accepted and the clock after that. -/
def finish (m : Move σ) (accepted : Bool) (now : Micros) : σ × StepOutcome :=
  match m with
  | rest s o => (s, o)
  | write _ next => next accepted now

/-- The frame of a step, if there is one and the controller accepts it. -/
def written (m : Move σ) (accepted : Bool) : List Frame :=
  if accepted then m.frame?.toList else []

@[simp] theorem written_rest (next : σ) (outcome : StepOutcome) (accepted : Bool) :
    (rest next outcome).written accepted = [] := by
  cases accepted <;> rfl

@[simp] theorem written_write (frame : Frame) (next : Bool → Micros → σ × StepOutcome)
    (accepted : Bool) : (write frame next).written accepted = if accepted then [frame] else [] :=
      rfl

@[simp] theorem finish_rest (next : σ) (outcome : StepOutcome) (accepted : Bool) (now : Micros) :
    (rest next outcome).finish accepted now = (next, outcome) := rfl

@[simp] theorem finish_write (frame : Frame) (next : Bool → Micros → σ × StepOutcome)
    (accepted : Bool) (now : Micros) : (write frame next).finish accepted now = next accepted now :=
      rfl

end Move

/-- Bytes that every endpoint holds from the start, for its label. -/
def labelBytes : Nat := 32

end CanTransport
