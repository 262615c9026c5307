import CanTransport.Bench.Bus

/-! # Exchanges on the bus

Scripts of steps for several stations: calls at one station, rounds in which stations tick in turn,
and spans of time in which pacers drive them. Each step leaves what it answered, what happened
meanwhile and how the stations stand.
-/
namespace CanTransport.Bench

/-- Steps for stations; the ones concerned are named by number, in the order of their turns. -/
inductive ExchangeStep
  | call (node : Nat) (call : Call)
  | advance (span : Micros)
  /-- Rounds of one step for each station and then `span` on the clock, until all stations are idle
  if so asked. -/
  | rounds (nodes : List Nat) (limit : Nat) (span : Micros) (untilIdle : Bool)
  | drive (nodes : List Nat) (span : Micros)

/-- How a station stands. -/
structure Standing where
  pending : Nat
  active : Nat
  unacknowledged : Nat
  available : Int
  inbox : Nat
  outcomes : Nat
deriving DecidableEq

def Node.standing (n : Node) : Standing where
  pending := n.station.pending.length
  active := n.station.active.length
  unacknowledged := n.station.outbox.liveCount
  available := n.station.budget.remaining
  inbox := n.controller.inbox.length
  outcomes := n.controller.outcomes.length

def Node.isIdle (n : Node) : Bool := n.station.isQuiet && n.controller.inbox.isEmpty

structure ExchangeRecord where
  reply : Reply
  log : List Entry
  standings : List Standing

namespace Bus

/-- One step for each station named, then `span` on the clock. -/
def round (nodes : List Nat) (span : Micros) (b : Bus) : Bus :=
  (nodes.foldl (fun b i => (b.run i Station.tickIfDue).2) b).advance span

/-- At most `limit` rounds; `done` counts those before. -/
def rounds (nodes : List Nat) (span : Micros) (untilIdle : Bool) : Nat → Nat → Bus → Nat × Bus
  | 0, done, b => (done, b)
  | limit + 1, done, b =>
    if untilIdle && nodes.all fun i => (b.node i).isIdle then (done, b)
    else rounds nodes span untilIdle limit (done + 1) (b.round nodes span)

/-- Polls each pacer once, in order. -/
def pollAll : List (Nat × Pacer) → Bus → List (Nat × Pacer) × Bus
  | [], b => ([], b)
  | (i, p) :: rest, b =>
    let (p, b) := b.run i p.poll
    let (rest, b) := pollAll rest b
    ((i, p) :: rest, b)

/-- The next instant at which a pacer has something to do. -/
def nextExpiry? (pacers : List (Nat × Pacer)) : Option Micros := (pacers.map (·.2.nextExpiry)).min?

/-- Polls now and at each expiry up to `stop`, at most `fuel` more times, and lets the clock run on
to `stop`. -/
def driveUpTo (stop : Micros) : Nat → List (Nat × Pacer) → Bus → Bus
  | 0, pacers, b => { (pollAll pacers b).2 with clock := stop }
  | fuel + 1, pacers, b =>
    let (pacers, b) := pollAll pacers b
    match nextExpiry? pacers with
    | some next =>
      if next ≤ stop then driveUpTo stop fuel pacers { b with clock := next } else
        { b with clock := stop }
    | none => { b with clock := stop }

/-- Drives the stations named for a span of time. Expiries are at least a ticker's floor apart for
each of two tickers a station, which bounds the number of polls. -/
def drive (nodes : List Nat) (span : Micros) (b : Bus) : Bus :=
  let pacers := nodes.map fun i => (i, Pacer.start (b.node i).station b.clock)
  driveUpTo (b.clock + span) (2 * nodes.length * (span / Timing.tickerFloor + 1)) pacers b

def step (b : Bus) : ExchangeStep → Reply × Bus
  | .call i c => b.call i c
  | .advance span => (.nothing, b.advance span)
  | .rounds nodes limit span untilIdle =>
    let (done, b) := b.rounds nodes span untilIdle limit 0
    (.count done, b)
  | .drive nodes span => (.nothing, b.drive nodes span)

/-- One step with an empty log, and its record. -/
def recordStep (b : Bus) (step : ExchangeStep) : ExchangeRecord × Bus :=
  let (reply, b) := { b with log := [] }.step step
  ({ reply, log := b.log.reverse, standings := b.nodes.map (·.standing) }, b)

def exchange : List ExchangeStep → Bus → List ExchangeRecord
  | [], _ => []
  | step :: rest, b =>
    let (record, b) := b.recordStep step
    record :: exchange rest b

end Bus
end CanTransport.Bench
