import CanTransport.Station.Delivery

/-! # Scheduler

A tick delivers the outcomes reported so far, starts requests, takes at most one frame from the
controller, steps the running conversations in the order of their identifiers and retires those that
are over. A frame goes to the first conversation that waits for it; one that nobody waits for opens
a reception.
-/
namespace CanTransport.Station
open CanTransport.Action

/-- One frame from the controller, if it is addressed to this station. -/
def receiveFrame (settings : Settings) : Action (Option Frame) := do
  if (← available) = 0 then return none
  else
    let frame ← read
    return frame.filter settings.admits

/-- Starts what can be started. Nothing moves unless both locks are had. -/
def startWaiting : Action Unit := do
  let _ ← withLock .pending do
    withLock .conversations (modify startPending)

/-- Passes on what a step brought about. A finished endpoint that cannot be listed is still active
and is listed after its next step. -/
def passOn (h : Handle) : StepOutcome → Action Unit
  | .inProgress => return
  | .firstFrame length => notify h.id (.firstFrame h.address length h.kind)
  | .finished _ => do
    let _ ← withLock .conversations (modify (·.markFinished h))

/-- Steps one conversation, with the frame if it waits for it, otherwise without one if it is due.
The answer is the frame if it is still to be had. -/
def dispatchOne (tickAt : Micros) (frame : Option Frame) (h : Handle) : Action (Option Frame) := do
  let claims ← match frame with
    | some f => if h.accepts f.id then isAwaiting h.id else pure false
    | none => pure false
  if claims then
    let outcome ← stepEndpoint h.id frame
    passOn h outcome
    return none
  else
    if ← isDue h.id tickAt then
      let outcome ← stepEndpoint h.id none
      passOn h outcome
    return frame

/-- The question whether the frame is claimed stands by itself. -/
theorem dispatchOne_eq (tickAt : Micros) (frame : Option Frame) (h : Handle) :
    dispatchOne tickAt frame h =
      ((match frame with
        | some f => if h.accepts f.id then isAwaiting h.id else pure false
        | none => pure false) >>= fun claims =>
        if claims then
          (stepEndpoint h.id frame >>= fun outcome => passOn h outcome) >>= fun _ => pure none
        else
          isDue h.id tickAt >>= fun due =>
            if due then
              (stepEndpoint h.id none >>= fun outcome => passOn h outcome) >>= fun _ => pure frame
            else pure frame) := by
  simp only [bind_assoc]
  unfold dispatchOne
  cases frame with
  | none => rfl
  | some f =>
    dsimp only
    split <;> rfl

/-- Steps conversations in order; answers the frame if nobody took it. -/
def dispatch (tickAt : Micros) : Option Frame → List Handle → Action (Option Frame)
  | frame, [] => return frame
  | frame, h :: rest => do
    let frame ← dispatchOne tickAt frame h
    dispatch tickAt frame rest

/-- Opens a reception for a frame that nobody waits for. On a busy identifier, or without memory,
the frame is dropped. -/
def openReceiver (frame : Frame) (settings : Settings) : Action Unit := do
  let opened ← withLock .conversations (modifyGet (·.openReception frame.id settings))
  match opened.toOption.join with
  | none => return
  | some h =>
    let outcome ← stepEndpoint h.id (some frame)
    passOn h outcome

/-- The notice of an endpoint's end. One that cannot be looked at is reported as an internal error.
-/
def completion (h : Handle) (r : Option Endpoint) : Notice :=
  match r, h.role with
  | some (.sender s), _ => .confirm h.address (s.result.getD (.error .internal)) h.kind
  | some (.receiver r), _ =>
    .indication h.address r.message (r.result.getD (.error .internal)) h.kind
  | none, .sender => .confirm h.address (.error .internal) h.kind
  | none, .receiver => .indication h.address [] (.error .internal) h.kind

/-- Tells the application under the endpoint's own lock, or without it if it cannot be had. -/
def reportEnd (h : Handle) : Action Unit := do
  let told ← withLock (.endpoint h.id) do
    let s ← get
    notify h.id (completion h (s.endpoint? h.id))
  match told with
  | .ok _ => return
  | .error _ => notify h.id (completion h none)

/-- Each conversation that is over lets go of its entries and is reported. -/
def report : List Handle → Action Unit
  | [] => return
  | h :: rest => do
    let _ ← forget h.address
    reportEnd h
    report rest

/-- Retires finished endpoints. Their bytes are given back once all are reported. -/
def retire : Action Unit := do
  match ← withLock .conversations (modifyGet takeFinished) with
  | .error _ => return
  | .ok retired =>
    report retired
    modify fun s => retired.foldl (fun s h => s.drop h.id) s

/-- One tick, under the gate. It is given up where the settings or the running conversations cannot
be locked; a frame read by then is lost. -/
def tick : Action Unit := do
  match ← withLock .settings get with
  | .error _ => return
  | .ok s =>
    -- one view of the settings serves the whole tick
    let settings := s.settings
    let _ ← settle
    startWaiting
    let frame ← receiveFrame settings
    match ← withLock .conversations get with
    | .error _ => return
    | .ok s =>
      let tickAt ← now
      match ← dispatch tickAt frame s.active.handles with
      | some frame => openReceiver frame settings
      | none => pure ()
      retire

/-- Runs `body` under the gate, or not at all while another tick is in progress. -/
def throughGate (body : Action Unit) : Action Unit := do
  let _ ← withLock .gate body

/-- A tick, unless the controller is inactive, another tick is in progress, or the last one began
less than the run period ago. -/
def tickIfDue : Action Unit := do
  if ← isActive then
    throughGate do
      let clock ← now
      let s ← get
      if s.lastTick.any fun last => clock - last < s.runPeriod then return
      else
        modify fun s => { s with lastTick := some clock }
        tick

/-- A tick whose pace is kept by a ticker. -/
def pacedTick : Action Unit :=
  throughGate do
    let clock ← now
    modify fun s => { s with lastTick := some clock }
    tick

end CanTransport.Station
