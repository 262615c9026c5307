import CanTransport.Stopwatch

/-! # One stopwatch and its clock

The clock may be moved forward, or set to any instant.
-/
namespace CanTransport.Bench

inductive WatchStep
  | start
  | stop
  | clear
  | advance (span : Micros)
  | setClock (instant : Micros)
  | exceeded (limit : Nat)

structure Timekeeping where
  clock : Micros
  watch : Stopwatch := .idle

/-- What is read after a step; `answer` only where the step asks. -/
structure WatchReading where
  answer : Option Bool
  running : Bool
  elapsed : Micros
  millis : Nat
deriving DecidableEq

namespace Timekeeping

def perform (t : Timekeeping) : WatchStep → Option Bool × Timekeeping
  | .start => (none, { t with watch := .start t.clock })
  | .stop => (none, { t with watch := t.watch.stop t.clock })
  | .clear => (none, { t with watch := .idle })
  | .advance span => (none, { t with clock := t.clock + span })
  | .setClock instant => (none, { t with clock := instant })
  | .exceeded limit => (some (t.watch.exceeded t.clock limit), t)

def run : List WatchStep → Timekeeping → List WatchReading
  | [], _ => []
  | step :: rest, t =>
    let (answer, t) := t.perform step
    { answer, running := t.watch.isRunning, elapsed := t.watch.elapsed t.clock,
      millis := t.watch.millis t.clock } :: run rest t

end Timekeeping
end CanTransport.Bench
