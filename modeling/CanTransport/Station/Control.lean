import CanTransport.Station.Delivery

/-! # Requests, settings and counts

The calls of the application. Each takes the locks it needs one after the other and fails where one
is not had; a setter that fails keeps what it has changed by then.
-/
namespace CanTransport.Station
open CanTransport.Action

/-- Admits a message for transmission and queues it. The answer is the number of its sender. -/
def request (target : UInt8) (type : TargetType) (message : List UInt8) (kind : MessageType) :
    Action (Except RequestError EndpointId) := do
  match ← withLock .settings get with
  | .error e => return .error (.lock e)
  | .ok s =>
    let address := Address.ofParts type target s.settings.source
    match ← modifyGet fun s => s.addSender address message kind s.waitLimit with
    | .error e => return .error e
    | .ok h =>
      match ← withLock .pending (modify (·.enqueue h)) with
      | .ok _ => return .ok h.id
      | .error e =>
        modify (·.drop h.id)
        return .error (.lock e)

/-- A value read off the settings. -/
def readSettings {α : Type} (view : Settings → α) : Action (Except LockTimeout α) :=
  withLock .settings do return view (← get).settings

def changeSettings (change : Settings → Settings) : Action (Except LockTimeout Unit) :=
  withLock .settings (modify fun s => { s with settings := change s.settings })

def source : Action (Except LockTimeout UInt8) := readSettings (·.source)

def setSource (source : UInt8) : Action (Except LockTimeout Unit) :=
  changeSettings fun s => { s with source }

def hasGroup (group : UInt8) : Action (Except LockTimeout Bool) :=
  readSettings (·.functional.contains group)

/-- Listens to a group; false if it was listened to already. -/
def addGroup (group : UInt8) : Action (Except LockTimeout Bool) :=
  withLock .settings do
    modifyGet fun s => (!s.settings.functional.contains group,
      { s with settings.functional := s.settings.functional.insert group })

/-- Stops listening to a group; false if it was not listened to. -/
def removeGroup (group : UInt8) : Action (Except LockTimeout Bool) :=
  withLock .settings do
    modifyGet fun s => (s.settings.functional.contains group,
      { s with settings.functional := s.settings.functional.filter (· ≠ group) })

def blockSize : Action (Except LockTimeout UInt8) := readSettings (·.blockSize)

def separation : Action (Except LockTimeout SeparationTime) := readSettings (·.separation)

/-- Changes endpoints one after the other, up to the first that cannot be locked. -/
def changeEach (change : Endpoint → Endpoint) : List Handle → Action (Except LockTimeout Unit)
  | [] => return .ok ()
  | h :: rest => do
    match ← withLock (.endpoint h.id) (modify (·.modifyEndpoint h.id change)) with
    | .error e => return .error e
    | .ok _ => changeEach change rest

/-- Changes the requests waiting, in their order, and then the running conversations, in the order
of their identifiers. -/
def changeAll (change : Endpoint → Endpoint) : Action (Except LockTimeout Unit) := do
  match ← withLock .pending get with
  | .error e => return .error e
  | .ok waiting =>
    match ← withLock .conversations get with
    | .error e => return .error e
    | .ok running => changeEach change (waiting.pending ++ running.active.handles)

/-- Block size for receptions to come and, from their next flow control, for those running. -/
def setBlockSize (blockSize : UInt8) : Action (Except LockTimeout Unit) := do
  match ← changeSettings fun s => { s with blockSize } with
  | .error e => return .error e
  | .ok _ => changeAll (·.setBlockSize blockSize)

/-- Separation time for receptions to come and, from their next flow control, for those running. -/
def setSeparation (separation : SeparationTime) : Action (Except ConfigError Unit) := do
  match separation.validate with
  | .error e => return .error e
  | .ok _ =>
    match ← changeSettings fun s => { s with separation } with
    | .error e => return .error (.lock e)
    | .ok _ =>
      match ← changeAll (·.setSeparation separation) with
      | .error e => return .error (.lock e)
      | .ok _ => return .ok ()

/-- Bytes left in the budget. -/
def availableMemory : Action Int := return (← get).budget.remaining

def pendingCount : Action (Except LockTimeout Nat) :=
  withLock .pending do return (← get).pending.length

def activeCount : Action (Except LockTimeout Nat) :=
  withLock .conversations do return (← get).active.length

/-- Frames written whose outcome is still to be delivered. -/
def unacknowledgedCount : Action (Except LockTimeout Nat) :=
  withLock .outbox do return (← get).outbox.liveCount

end CanTransport.Station
