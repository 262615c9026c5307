import CanTransport.Endpoint.Receiver
import CanTransport.Endpoint.Sender

/-! # Endpoints

An endpoint carries one message in one direction.
-/
namespace CanTransport

inductive Role
  | sender
  | receiver
deriving DecidableEq

inductive Endpoint
  | sender (s : Sender)
  | receiver (r : Receiver)
deriving DecidableEq

namespace Endpoint

def role : Endpoint → Role
  | sender _ => .sender
  | receiver _ => .receiver

/-- Identifier that names the conversation. -/
def address : Endpoint → Address
  | sender s => s.address
  | receiver r => r.address

/-- Inbound messages are diagnostics, the only class that this addressing carries. -/
def kind : Endpoint → MessageType
  | sender s => s.kind
  | receiver _ => .diagnostics

def label : Endpoint → String
  | sender s => s.label
  | receiver r => r.label

def footprint : Endpoint → Nat
  | sender s => s.footprint
  | receiver r => r.footprint

def isAwaiting : Endpoint → Bool
  | sender s => s.isAwaiting
  | receiver r => r.isAwaiting

def dueAt : Endpoint → Option Micros
  | sender s => s.dueAt
  | receiver _ => none

/-- Whether a step without a frame has something to do at `now`. -/
def isDue (r : Endpoint) (now : Micros) : Bool := r.dueAt.all (· ≤ now)

def result : Endpoint → Option TransferResult
  | sender s => s.result
  | receiver r => r.result

def step (now : Micros) (frame : Option Frame) (budget : Budget) : Endpoint → Move Endpoint × Budget
  | sender s => ((s.step now frame).map sender, budget)
  | receiver r =>
    let (move, rest) := r.step now frame budget
    (move.map receiver, rest)

def onAck (now : Micros) (ack : Ack) : Endpoint → Endpoint
  | sender s => sender (s.onAck now ack)
  | receiver r => receiver (r.onAck now ack)

/-- Senders follow their peer's block size and keep none of their own. -/
def setBlockSize (blockSize : UInt8) : Endpoint → Endpoint
  | sender s => sender s
  | receiver r => receiver (r.setBlockSize blockSize)

/-- Senders follow their peer's separation time and keep none of their own. -/
def setSeparation (separation : SeparationTime) : Endpoint → Endpoint
  | sender s => sender s
  | receiver r => receiver (r.setSeparation separation)

end Endpoint
end CanTransport
