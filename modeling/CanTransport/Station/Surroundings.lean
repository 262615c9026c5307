import CanTransport.Program
import CanTransport.Station.Basic

/-! # What a station asks of its surroundings

The operations of a station are programs. They ask for locks, for the clock, for the controller and
the listener, and for the station's own state, which is read and changed in one indivisible access
at a time. Between two questions anything may happen that the locks held do not rule out.
-/
namespace CanTransport

/-- The gate is held for a whole tick; the others guard the state named. -/
inductive Lock
  | settings
  | pending
  | conversations
  | outbox
  | gate
  | endpoint (id : EndpointId)
deriving DecidableEq

/-- What the application is told. The message of a failed reception is empty. -/
inductive Notice
  | confirm (address : Address) (result : TransferResult) (kind : MessageType)
  | indication (address : Address) (message : List UInt8) (result : TransferResult)
      (kind : MessageType)
  | firstFrame (address : Address) (length : Nat) (kind : MessageType)
deriving DecidableEq

inductive Query
  /-- Is the lock had, now or before its deadline? -/
  | acquire (lock : Lock)
  | release (lock : Lock)
  /-- Changes the station; the answer is its state before. -/
  | access (change : Station → Station)
  | now
  | isActive
  /-- How many frames can be read. -/
  | available
  | read
  /-- Is the frame of this endpoint accepted? -/
  | write (writer : EndpointId) (frame : Frame)
  /-- The next outcome of a write, if one is reported. -/
  | outcome
  /-- Tells the application something about this endpoint. -/
  | notify (source : EndpointId) (notice : Notice)

@[reducible] def Query.Answer : Query → Type
  | .acquire _ => Bool
  | .release _ => Unit
  | .access _ => Station
  | .now => Micros
  | .isActive => Bool
  | .available => Nat
  | .read => Option Frame
  | .write _ _ => Bool
  | .outcome => Option Ack
  | .notify _ _ => Unit

abbrev Action (α : Type) : Type := Program Query Query.Answer α

namespace Action
variable {α : Type}

def acquire (lock : Lock) : Action Bool := .ask (.acquire lock) .done

def release (lock : Lock) : Action Unit := .ask (.release lock) .done

def modify (change : Station → Station) : Action Unit := .ask (.access change) fun _ => .done ()

def get : Action Station := .ask (.access id) .done

/-- Changes the station and takes a value out of the same access. -/
def modifyGet (change : Station → α × Station) : Action α :=
  .ask (.access fun s => (change s).2) fun s => .done (change s).1

def now : Action Micros := .ask .now .done

def isActive : Action Bool := .ask .isActive .done

def available : Action Nat := .ask .available .done

def read : Action (Option Frame) := .ask .read .done

def write (writer : EndpointId) (frame : Frame) : Action Bool := .ask (.write writer frame) .done

def outcome : Action (Option Ack) := .ask .outcome .done

def notify (source : EndpointId) (notice : Notice) : Action Unit :=
  .ask (.notify source notice) .done

/-- Runs `body` under a lock, or not at all if the lock is not had. -/
def withLock (lock : Lock) (body : Action α) : Action (Except LockTimeout α) := do
  if ← acquire lock then
    let a ← body
    release lock
    return .ok a
  else return .error .expired

end Action
end CanTransport
