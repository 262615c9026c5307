/-! # Stopwatch

Elapsed time in microseconds, read in whole milliseconds against a limit. A clock that runs
backwards reads as no time elapsed.
-/
namespace CanTransport

/-- An instant or a length of time in microseconds. -/
abbrev Micros := Nat

structure Stopwatch where
  startedAt : Option Micros
  frozen : Micros
deriving DecidableEq

namespace Stopwatch

/-- Stopped, reading zero. -/
def idle : Stopwatch := ⟨none, 0⟩

/-- Counting from `now`, whatever it read before. -/
def start (now : Micros) : Stopwatch := ⟨some now, 0⟩

def isRunning (w : Stopwatch) : Bool := w.startedAt.isSome

def elapsed (w : Stopwatch) (now : Micros) : Micros :=
  match w.startedAt with
  | some began => now - began
  | none => w.frozen

/-- Freezes the reading; a stopped watch keeps the one it has. -/
def stop (w : Stopwatch) (now : Micros) : Stopwatch := ⟨none, w.elapsed now⟩

def millis (w : Stopwatch) (now : Micros) : Nat := w.elapsed now / 1000

/-- Counting, and past `limit` whole milliseconds. -/
def exceeded (w : Stopwatch) (now : Micros) (limit : Nat) : Bool :=
  w.isRunning && decide (limit < w.millis now)

/-- A running watch goes on, a stopped one starts over. -/
def ensure (w : Stopwatch) (now : Micros) : Stopwatch := if w.isRunning then w else start now

end Stopwatch
end CanTransport
