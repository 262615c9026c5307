import CanTransport.Station.Surroundings

/-! # Writing frames and delivering their outcomes

A frame is written and its entry made under one lock, so entries stand in write order. Outcomes are
first drained from the controller onto the entries and then delivered, each under its endpoint's
lock alone.
-/
namespace CanTransport.Station
open CanTransport.Action

/-- Writes a frame for an endpoint. Refused also when the outbox cannot be locked. -/
def send (writer : EndpointId) (address : Address) (frame : Frame) : Action Bool := do
  let sent ← withLock .outbox do
    let accepted ← write writer frame
    if accepted then modify fun s => { s with outbox := s.outbox.push address writer }
    return accepted
  return sent.toOption.getD false

/-- Takes a step that has been begun to its end. -/
def finishStep (id : EndpointId) (address : Address) : Move Endpoint → Action StepOutcome
  | .rest _ outcome => return outcome
  | .write frame next => do
    let accepted ← send id address frame
    let (r, outcome) := next accepted (← now)
    modify (·.modifyEndpoint id fun _ => r)
    return outcome

/-- Steps an endpoint under its lock; one that cannot be locked fails. -/
def stepEndpoint (id : EndpointId) (frame : Option Frame) : Action StepOutcome := do
  let outcome ← withLock (.endpoint id) do
    let clock ← now
    match ← modifyGet (·.beginStep id frame clock) with
    | none => return .finished (.error .internal)
    | some (address, move) => finishStep id address move
  return outcome.toOption.getD (.finished (.error .internal))

/-- Hands an endpoint the outcome of its frame; lost when the endpoint cannot be locked. -/
def ackEndpoint (id : EndpointId) (ack : Ack) : Action Unit := do
  let _ ← withLock (.endpoint id) do
    let clock ← now
    modify (·.modifyEndpoint id (·.onAck clock ack))

/-- Looks at an endpoint under its lock; one that cannot be locked is not looked at. -/
def inspect (id : EndpointId) (view : Endpoint → Bool) : Action Bool := do
  let seen ← withLock (.endpoint id) get
  return seen.toOption.any fun s => (s.endpoint? id).any view

def isAwaiting (id : EndpointId) : Action Bool := inspect id (·.isAwaiting)

def isDue (id : EndpointId) (clock : Micros) : Action Bool := inspect id (·.isDue clock)

/-- Takes one outcome from the controller. True if an entry took it; an outcome that none can take
is discarded. -/
def pollOutcome : Action Bool := do
  let taken ← withLock .outbox do
    match ← outcome with
    | none => return false
    | some ack => modifyGet (·.record ack)
  return taken.toOption.getD false

/-- Polls until nothing is taken, at most `fuel` times. -/
def drainUpTo : Nat → Action Unit
  | 0 => return
  | fuel + 1 => do
    if ← pollOutcome then drainUpTo fuel

/-- Each outcome taken resolves an entry, so one poll more than there are unresolved ones is enough.
-/
def drain : Action Unit := do
  let s ← get
  drainUpTo (s.outbox.unresolvedCount + 1)

/-- Delivers an entry to its writer. True if that one still exists. -/
def deliverEntry (e : OutboxEntry) : Action Bool := do
  let s ← get
  match e.writer.filter fun id => (s.endpoint? id).isSome, e.outcome with
  | some id, some ack =>
    ackEndpoint id ack
    return true
  | _, _ => return false

/-- Delivers the next entry that is ready; none if there is none. -/
def deliverNext : Action (Option Bool) := do
  let entry ← withLock .outbox do
    let clock ← now
    modifyGet (·.nextDelivery clock)
  match entry.toOption.join with
  | none => return none
  | some e => return some (← deliverEntry e)

/-- Delivers until no entry is ready, at most `fuel` of them; answers how many were. -/
def deliverUpTo : Nat → Action Nat
  | 0 => return 0
  | fuel + 1 => do
    match ← deliverNext with
    | none => return 0
    | some delivered =>
      let rest ← deliverUpTo fuel
      return rest + if delivered then 1 else 0

/-- Each delivery takes an entry out, so their number is enough. -/
def deliver : Action Nat := do
  let s ← get
  deliverUpTo (s.outbox.length + 1)

/-- Drains the controller and delivers what is ready. -/
def settle : Action Nat := do
  drain
  deliver

/-- Lets go of a conversation's entries; answers how many. -/
def forget (address : Address) : Action (Except LockTimeout Nat) :=
  withLock .outbox do
    let clock ← now
    modifyGet (·.releaseEntries address clock)

end CanTransport.Station
