import CanTransport.Bench.Controller
import CanTransport.Station.Control
import CanTransport.Station.Pacer

/-! # Simulated bus

Stations on one bus under a clock that moves only when told to. A call made at a station runs to its
end before the next; a lock that is held is therefore never had by waiting. Hooks make calls from
within other calls, at the moment when a station tells its application something or uses its
controller.
-/
namespace CanTransport.Bench

/-- When hooks run: once a notice is recorded, or as a controller starts to write or read. -/
inductive Moment
  | confirm
  | indication
  | firstFrame
  | write
  | read
deriving DecidableEq

def momentOf : Notice → Moment
  | .confirm .. => .confirm
  | .indication .. => .indication
  | .firstFrame .. => .firstFrame

/-- A call at one station, or something done to its controller. -/
inductive Call
  | request (target : UInt8) (type : TargetType) (message : List UInt8) (kind : MessageType)
  | tickIfDue
  | settle
  | inject (frames : List Frame)
  | report (acks : List Ack)
  | change (change : ControllerChange)
  | receive
  | source
  | setSource (source : UInt8)
  | addGroup (group : UInt8)
  | removeGroup (group : UInt8)
  | hasGroup (group : UInt8)
  | blockSize
  | setBlockSize (blockSize : UInt8)
  | separation
  | setSeparation (separation : SeparationTime)
  | counts

/-- What a call answers. -/
inductive Reply
  | nothing
  | count (n : Nat)
  | requested (answer : Except RequestError EndpointId)
  | received (notice : Option Notice)
  | changed (answer : Except LockTimeout Unit)
  | configured (answer : Except ConfigError Unit)
  | byte (answer : Except LockTimeout UInt8)
  | flag (answer : Except LockTimeout Bool)
  | separation (answer : Except LockTimeout SeparationTime)
  | counts (pending active unacknowledged : Except LockTimeout Nat) (available : Int)

/-- What happens on the bus, with the number of the station it happens at. -/
inductive Entry
  | refused (node : Nat) (frame : Frame)
  | failed (node : Nat) (frame : Frame)
  | sent (node : Nat) (frame : Frame)
  | notice (node : Nat) (notice : Notice)
  | hook (node : Nat) (moment : Moment) (reply : Reply)

/-- Calls made at a station from within its `nth` such moment. -/
structure Hook where
  node : Nat
  moment : Moment
  nth : Nat
  calls : List Call

/-- How often each moment has come. -/
structure Tally where
  confirm : Nat := 0
  indication : Nat := 0
  firstFrame : Nat := 0
  write : Nat := 0
  read : Nat := 0

namespace Tally

def count (t : Tally) : Moment → Nat
  | .confirm => t.confirm
  | .indication => t.indication
  | .firstFrame => t.firstFrame
  | .write => t.write
  | .read => t.read

def bump (t : Tally) : Moment → Tally
  | .confirm => { t with confirm := t.confirm + 1 }
  | .indication => { t with indication := t.indication + 1 }
  | .firstFrame => { t with firstFrame := t.firstFrame + 1 }
  | .write => { t with write := t.write + 1 }
  | .read => { t with read := t.read + 1 }

end Tally

structure Node where
  station : Station
  controller : Controller := {}
  held : List Lock := []
  /-- Locks waited for in vain, latest first; the gate is never waited for. -/
  missed : List Lock := []
  /-- Notices kept for the application to fetch, instead of being logged. -/
  channel : Option (List Notice) := none
  tally : Tally := {}

/-- Stands in for a node that is not there: offline and without memory. -/
def Node.absent : Node :=
  { station := { settings := { source := 0 }, budget := ⟨0⟩ }, controller := { offline := true } }

/-- Notices that a channel holds; further ones are lost. -/
def channelCapacity : Nat := 4

structure Bus where
  clock : Micros := 0
  nodes : List Node
  hooks : List Hook := []
  /-- Latest entry first. -/
  log : List Entry := []

/-- Answers the questions of programs that run at one station. -/
abbrev Responder : Type := (q : Query) → Bus → q.Answer × Bus

namespace Bus

def node (b : Bus) (i : Nat) : Node := b.nodes.getD i .absent

def modifyNode (b : Bus) (i : Nat) (f : Node → Node) : Bus := { b with nodes := b.nodes.modify i f }

def modifyController (b : Bus) (i : Nat) (f : Controller → Controller) : Bus :=
  b.modifyNode i fun n => { n with controller := f n.controller }

def record (b : Bus) (e : Entry) : Bus := { b with log := e :: b.log }

def advance (b : Bus) (span : Micros) : Bus := { b with clock := b.clock + span }

/-- Copies of a frame arrive at every other station that is not offline. -/
def broadcast (b : Bus) (i : Nat) (t : Transit) : Bus :=
  { b with nodes := b.nodes.mapIdx fun j n =>
    if j = i || n.controller.offline then n
    else { n with controller := n.controller.receive (List.replicate t.copies t.frame) } }

/-- Logs a notice, or keeps it in the channel if there is one with room. -/
def deliverNotice (b : Bus) (i : Nat) (notice : Notice) : Bus :=
  match (b.node i).channel with
  | none => b.record (.notice i notice)
  | some kept =>
    if kept.length < channelCapacity then b.modifyNode i fun n =>
      { n with channel := some (kept ++ [notice]) }
    else b

def write (b : Bus) (i : Nat) (frame : Frame) : Bool × Bus :=
  let (offer, controller) := (b.node i).controller.offer frame
  let b := b.modifyController i fun _ => controller
  match offer with
  | .refused => (false, b.record (.refused i frame))
  | .failed => (true, b.record (.failed i frame))
  | .sent transit => (true, (b.record (.sent i transit.frame)).broadcast i transit)

/-- Answers at station `i`; `fire` is what a moment brings about there. -/
def answer (fire : Moment → Bus → Bus) (i : Nat) : Responder
  | .acquire lock, b =>
    if (b.node i).held.contains lock then
      (false, if lock = .gate then b else b.modifyNode i fun n =>
        { n with missed := lock :: n.missed })
    else (true, b.modifyNode i fun n => { n with held := lock :: n.held })
  | .release lock, b => ((), b.modifyNode i fun n => { n with held := n.held.erase lock })
  | .access change, b =>
    ((b.node i).station, b.modifyNode i fun n => { n with station := change n.station })
  | .now, b => (b.clock, b)
  | .isActive, b => ((b.node i).controller.isActive, b)
  | .available, b => ((b.node i).controller.available, b)
  | .read, b =>
    let b := fire .read b
    let (frame, controller) := (b.node i).controller.read
    (frame, b.modifyController i fun _ => controller)
  | .write _ frame, b => (fire .write b).write i frame
  | .outcome, b =>
    let (ack, controller) := (b.node i).controller.outcome
    (ack, b.modifyController i fun _ => controller)
  | .notify _ notice, b => ((), fire (momentOf notice) (b.deliverNotice i notice))

end Bus

/-- All counts of a station, each under its own lock. -/
def allCounts : Action Reply := do
  let pending ← Station.pendingCount
  let active ← Station.activeCount
  let unacknowledged ← Station.unacknowledgedCount
  return .counts pending active unacknowledged (← Station.availableMemory)

/-- Makes a call at station `i`, whose programs are answered by `responder`. -/
def Call.perform (responder : Responder) (i : Nat) (call : Call) (b : Bus) : Reply × Bus :=
  let run {α : Type} (p : Action α) (reply : α → Reply) : Reply × Bus :=
    let (a, b) := p.run responder b
    (reply a, b)
  match call with
  | .request target type message kind => run (Station.request target type message kind) .requested
  | .tickIfDue => run Station.tickIfDue fun _ => .nothing
  | .settle => run Station.settle fun _ => .nothing
  | .inject frames => (.nothing, b.modifyController i (·.receive frames))
  | .report acks => (.nothing, b.modifyController i (·.report acks))
  | .change d => (.nothing, b.modifyController i (·.change d))
  | .receive =>
    let kept := (b.node i).channel
    (.received (kept.bind (·.head?)), b.modifyNode i fun n =>
      { n with channel := kept.map (·.tail) })
  | .source => run Station.source .byte
  | .setSource value => run (Station.setSource value) .changed
  | .addGroup group => run (Station.addGroup group) .flag
  | .removeGroup group => run (Station.removeGroup group) .flag
  | .hasGroup group => run (Station.hasGroup group) .flag
  | .blockSize => run Station.blockSize .byte
  | .setBlockSize value => run (Station.setBlockSize value) .changed
  | .separation => run Station.separation .separation
  | .setSeparation value => run (Station.setSeparation value) .configured
  | .counts => run allCounts id

namespace Bus

/-- Counts a moment at station `i`. -/
def count (b : Bus) (i : Nat) (moment : Moment) : Bus :=
  b.modifyNode i fun n => { n with tally := n.tally.bump moment }

/-- Runs the calls of a hook one after the other and logs what each answers. -/
def runHook (responder : Responder) (b : Bus) (h : Hook) : Bus :=
  h.calls.foldl (fun b call =>
    let (reply, b) := call.perform responder h.node b
    b.record (.hook h.node h.moment reply)) b

/-- Counts a moment and runs the hooks that wait for it. -/
def fire (responder : Responder) (i : Nat) (moment : Moment) (b : Bus) : Bus :=
  let b := b.count i moment
  let isDue := fun (h : Hook) => h.node = i && h.moment = moment && h.nth =
      (b.node i).tally.count moment
  (b.hooks.filter isDue).foldl (runHook responder) b

/-- The responder of station `i`, with hooks nested at most `depth` deep. -/
def responderWithin : Nat → Nat → Responder
  | 0, i => answer (fun moment b => b.count i moment) i
  | depth + 1, i => answer (fire (responderWithin depth i) i) i

/-- A hook runs once, so hooks nest no deeper than there are hooks. -/
def responder (b : Bus) (i : Nat) : Responder := responderWithin b.hooks.length i

/-- Runs a program at station `i`. -/
def run {α : Type} (b : Bus) (i : Nat) (p : Action α) : α × Bus := p.run (b.responder i) b

def call (b : Bus) (i : Nat) (c : Call) : Reply × Bus := c.perform (b.responder i) i b

end Bus
end CanTransport.Bench
