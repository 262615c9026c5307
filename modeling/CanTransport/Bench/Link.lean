import CanTransport.Bench.Bus

/-! # One link, driven by hand

The endpoints and the outbox of one station, stepped one by one against a controller that
reports no outcome by itself. An endpoint is named by its number, the order of its creation.
-/
namespace CanTransport.Bench

inductive LinkStep
  | sender (address : Address) (message : List UInt8) (kind : MessageType)
      (waitLimit : Option UInt8)
  | receiver (address : Address) (blockSize : UInt8) (separation : SeparationTime)
  | step (id : EndpointId) (frame : Option Frame)
  | onAck (id : EndpointId) (ack : Ack)
  | report (acks : List Ack)
  | poll
  | deliver
  /-- Reports successes and takes them through to their endpoints. -/
  | confirm (count : Nat)
  | forget (address : Address)
  | accepts (id : EndpointId) (address : Address)
  | isDue (id : EndpointId)
  | isAwaiting (id : EndpointId)
  | setBlockSize (id : EndpointId) (blockSize : UInt8)
  | setSeparation (id : EndpointId) (separation : SeparationTime)
  | drop (id : EndpointId)
  | change (change : ControllerChange)
  | setBudget (bytes : Int)
  | advance (span : Micros)
  /-- A step made while the lock of an endpoint is held. -/
  | holding (id : EndpointId) (step : LinkStep)
  | describe (id : EndpointId)
  | message (id : EndpointId)
  /-- Steps without a frame, each confirmed, until the endpoint waits for a frame or is finished. -/
  | pump (id : EndpointId) (limit : Nat)
  /-- Hands over a message in consecutive frames, from an offset and a sequence number on. -/
  | feed (id : EndpointId) (message : List UInt8) (offset : Nat) (sequence : UInt8)

inductive LinkReply
  | nothing
  | flag (b : Bool)
  | count (n : Nat)
  | sender (answer : Except RequestError EndpointId)
  | receiver (answer : Except BudgetError EndpointId)
  | stepped (outcome : StepOutcome)
  | released (answer : Except LockTimeout Nat)
  | described (endpoint : Option Endpoint)
  | message (bytes : Option (List UInt8))
  /-- How many steps were made, and the outcome of the last. -/
  | repeated (times : Nat) (last : StepOutcome)

/-- What is seen after a step. -/
structure LinkRecord where
  reply : LinkReply
  log : List Entry
  endpoints : List (Option Endpoint)
  budget : Budget
  outbox : Outbox

namespace Bus

/-- The bus of a single station with the given budget. -/
def link (bytes : Int) : Bus :=
  { nodes := [{
      station := { settings := { source := 0 }, budget := ⟨bytes⟩ }
      controller := { automatic := none } }] }

def station (b : Bus) : Station := (b.node 0).station

def runHere {α : Type} (b : Bus) (p : Action α) : α × Bus := b.run 0 p

def endpoint? (b : Bus) (id : EndpointId) : Option Endpoint := b.station.endpoint? id

/-- Reports that many successes and takes them through to their endpoints. -/
def confirm (b : Bus) (count : Nat) : Nat × Bus :=
  (b.modifyController 0 (·.report (List.replicate count .success))).runHere Station.settle

def isAwaiting (b : Bus) (id : EndpointId) : Bool := (b.runHere (Station.isAwaiting id)).1

/-- One step without a frame, confirmed. -/
def stepConfirmed (b : Bus) (id : EndpointId) : StepOutcome × Bus :=
  let (outcome, b) := b.runHere (Station.stepEndpoint id none)
  (outcome, (b.confirm 1).2)

def pump (id : EndpointId) : Nat → Nat → StepOutcome → Bus → (Nat × StepOutcome) × Bus
  | 0, times, last, b => ((times, last), b)
  | limit + 1, times, last, b =>
    if last.isFinished || b.isAwaiting id then ((times, last), b)
    else
      let (last, b) := b.stepConfirmed id
      pump id limit (times + 1) last b

/-- The consecutive frames of a message, seven bytes each, on one identifier; at most `limit` of
them. -/
def consecutiveFrames (address : Address) : Nat → UInt8 → List UInt8 → List (Option Frame)
  | 0, _, _ => []
  | limit + 1, sequence, bytes =>
    if bytes.isEmpty then []
    else Pdu.consecutiveFrame? address sequence (bytes.take Pdu.chunkSize) ::
      consecutiveFrames address limit (Pdu.nextSequence sequence) (bytes.drop Pdu.chunkSize)

/-- Hands frames to an endpoint one by one; before each, an endpoint that does not wait for a frame
is stepped without one. -/
def feed (id : EndpointId) : List (Option Frame) → Nat → StepOutcome → Bus →
    (Nat × StepOutcome) × Bus
  | [], times, last, b => ((times, last), b)
  | frame :: rest, times, last, b =>
    if last.isFinished then ((times, last), b)
    else
      let b := if b.isAwaiting id then b else (b.stepConfirmed id).2
      let (last, b) := b.runHere (Station.stepEndpoint id frame)
      feed id rest (times + 1) last b

def linkStep : LinkStep → Bus → LinkReply × Bus
  | .sender address message kind waitLimit, b =>
    let (h, b) := b.runHere (Action.modifyGet (·.addSender address message kind waitLimit))
    (.sender (h.map (·.id)), b)
  | .receiver address blockSize separation, b =>
    let (h, b) := b.runHere (Action.modifyGet (·.addReceiver address blockSize separation))
    (.receiver (h.map (·.id)), b)
  | .step id frame, b =>
    let (outcome, b) := b.runHere (Station.stepEndpoint id frame)
    (.stepped outcome, b)
  | .onAck id ack, b => (.nothing, (b.runHere (Station.ackEndpoint id ack)).2)
  | .report acks, b => (.nothing, b.modifyController 0 (·.report acks))
  | .poll, b =>
    let (taken, b) := b.runHere Station.pollOutcome
    (.flag taken, b)
  | .deliver, b =>
    let (count, b) := b.runHere Station.deliver
    (.count count, b)
  | .confirm count, b =>
    let (count, b) := b.confirm count
    (.count count, b)
  | .forget address, b =>
    let (answer, b) := b.runHere (Station.forget address)
    (.released answer, b)
  | .accepts id address, b =>
    (.flag ((b.endpoint? id).any fun r => (r.handle id).accepts address), b)
  | .isDue id, b => (.flag (b.runHere (Station.isDue id b.clock)).1, b)
  | .isAwaiting id, b => (.flag (b.isAwaiting id), b)
  | .setBlockSize id blockSize, b =>
    (.nothing, (b.runHere (Station.changeEach (·.setBlockSize blockSize) (handlesOf b id))).2)
  | .setSeparation id separation, b =>
    (.nothing, (b.runHere (Station.changeEach (·.setSeparation separation) (handlesOf b id))).2)
  | .drop id, b => (.nothing, (b.runHere (Action.modify (·.drop id))).2)
  | .change d, b => (.nothing, b.modifyController 0 (·.change d))
  | .setBudget bytes, b => (.nothing, (b.runHere (Action.modify ({ · with budget := ⟨bytes⟩ }))).2)
  | .advance span, b => (.nothing, b.advance span)
  | .holding id step, b =>
    let b := (b.runHere (Action.acquire (.endpoint id))).2
    let (reply, b) := linkStep step b
    (reply, (b.runHere (Action.release (.endpoint id))).2)
  | .describe id, b => (.described (b.endpoint? id), b)
  | .message id, b =>
    (.message ((b.endpoint? id).bind fun
      | .sender _ => none
      | .receiver r => some r.message), b)
  | .pump id limit, b =>
    let ((times, last), b) := pump id limit 0 .inProgress b
    (.repeated times last, b)
  | .feed id message offset sequence, b =>
    let rest := message.drop offset
    let frames := match b.endpoint? id with
      | some r => consecutiveFrames r.address rest.length sequence rest
      | none => []
    let ((times, last), b) := feed id frames 0 .inProgress b
    (.repeated times last, b)
where
  handlesOf (b : Bus) (id : EndpointId) : List Handle := ((b.endpoint? id).map (·.handle id)).toList

/-- One step with an empty log, and what is seen after it. -/
def recordLinkStep (b : Bus) (step : LinkStep) : LinkRecord × Bus :=
  let (reply, b) := linkStep step { b with log := [] }
  let s := b.station
  ({ reply, log := b.log.reverse, endpoints := (List.range s.fresh).map s.endpoint?, budget := s.budget,
     outbox := s.outbox }, b)

def exerciseLink : List LinkStep → Bus → List LinkRecord
  | [], _ => []
  | step :: rest, b =>
    let (record, b) := b.recordLinkStep step
    record :: exerciseLink rest b

end Bus
end CanTransport.Bench
