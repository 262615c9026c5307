import CanTransport.Program
import CanTransport.Refusal
import CanTransport.Stopwatch

/-! # Locks with a deadline

A lock is tried, and tried again until it is had or a reading of the clock reaches the deadline. No
clock is read when the first attempt succeeds, and the last reading is always followed by giving up,
so after it nothing is held.
-/
namespace CanTransport

inductive WaitQuery
  /-- Tries the lock; it is held afterwards if the answer is yes. -/
  | attempt
  | reading

@[reducible] def WaitQuery.Answer : WaitQuery → Type
  | attempt => Bool
  | reading => Micros

/-- How a wait ends; `unfinished` if it was cut off before its end. -/
inductive Wait
  | acquired
  | expired
  | unfinished
deriving DecidableEq

abbrev Waiting : Type → Type := Program WaitQuery WaitQuery.Answer

namespace Waiting

def attempt : Waiting Bool := .ask .attempt .done

def reading : Waiting Micros := .ask .reading .done

/-- Tries until the deadline is read, at most `fuel` times. -/
def retry (deadline : Micros) : Nat → Waiting Wait
  | 0 => return .unfinished
  | fuel + 1 => do
    if ← attempt then return .acquired
    else if deadline ≤ (← reading) then return .expired
    else retry deadline fuel

/-- The deadline counts from the reading after the first attempt. -/
def acquire (timeout : Micros) (fuel : Nat) : Waiting Wait := do
  if ← attempt then return .acquired
  else
    let start ← reading
    retry (start + timeout) fuel

end Waiting

/-- A value behind a lock. -/
structure TimedLock (α : Type) where
  value : α
  timeout : Micros
  held : Bool := false
deriving DecidableEq

namespace TimedLock
variable {α : Type}

/-- One attempt, without waiting. -/
def tryLock (l : TimedLock α) : Except LockTimeout (TimedLock α) :=
  if l.held then .error .expired else .ok { l with held := true }

def unlock (l : TimedLock α) : TimedLock α := { l with held := false }

/-- A held lock does not show its value. -/
def text (l : TimedLock α) (valueText : α → String) : String :=
  let shown := if l.held then "\"<locked>\"" else valueText l.value
  "TimedMutex \x7b value: " ++ shown ++ " \x7d"

end TimedLock
end CanTransport
