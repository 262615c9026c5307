import CanTransport.TimedLock

/-! # Contention for one lock

A lock on an integer, and a holder that may let go while somebody waits for it. While somebody
waits, each reading of the clock moves the clock on by one microsecond.
-/
namespace CanTransport.Bench

inductive LockStep
  /-- One attempt; the lock stays held. -/
  | hold
  | release
  /-- One attempt; the lock is let go at once. -/
  | probe
  /-- Waits for the lock, adds to the value and lets go. The holder lets go once the clock has moved
  on by the time given, or not at all. -/
  | add (amount : Int) (releaseAfter : Option Micros)
  | setHeld (value : Int)
  | set (value : Int)
  | display
  | timeout

inductive LockReply
  | nothing
  | value (v : Int)
  | result (r : Except LockTimeout Int)
  | text (t : String)
  | timeout (t : Micros)

/-- A lock, a clock, and the instant at which the holder lets go. -/
structure Contention where
  lock : TimedLock Int
  clock : Micros := 0
  releaseAt : Option Micros := none

namespace Contention

def answer : (q : WaitQuery) → Contention → q.Answer × Contention
  | .attempt, c =>
    match c.lock.tryLock with
    | .ok lock => (true, { c with lock })
    | .error _ => (false, c)
  | .reading, c =>
    let lock := if c.releaseAt.any (· ≤ c.clock) then c.lock.unlock else c.lock
    (c.clock, { c with lock, clock := c.clock + 1 })

/-- Waits for the lock. The clock passes the deadline after as many readings as it has microseconds.
-/
def wait (lock : TimedLock Int) (releaseAfter : Option Micros) : Wait × TimedLock Int :=
  let (w, c) :=
    (Waiting.acquire lock.timeout (lock.timeout + 1)).run answer { lock, releaseAt := releaseAfter }
  (w, c.lock)

end Contention

/-- Sixty-four bits, wrapping. -/
def wrap64 (n : Int) : Int := n.bmod 0x10000000000000000

def LockStep.perform (l : TimedLock Int) : LockStep → LockReply × TimedLock Int
  | hold =>
    match l.tryLock with
    | .ok l => (.result (.ok l.value), l)
    | .error e => (.result (.error e), l)
  | release => (.nothing, l.unlock)
  | probe => (.result (l.tryLock.map (·.value)), l)
  | add amount releaseAfter =>
    match Contention.wait l releaseAfter with
    | (.acquired, l) =>
      let value := wrap64 (l.value + amount)
      (.result (.ok value), { l with value }.unlock)
    | (_, l) => (.result (.error .expired), l)
  | setHeld value => if l.held then (.value value, { l with value }) else (.nothing, l)
  | set value => (.value value, { l with value })
  | display => (.text (l.text toString), l)
  | timeout => (.timeout l.timeout, l)

/-- Each step's answer, and whether the lock is held after it. -/
def contend : List LockStep → TimedLock Int → List (LockReply × Bool)
  | [], _ => []
  | step :: rest, l =>
    let (reply, l) := step.perform l
    (reply, l.held) :: contend rest l

end CanTransport.Bench
