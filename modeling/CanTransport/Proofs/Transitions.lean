import CanTransport.Proofs.Chronicle
import CanTransport.Proofs.Handles

/-! # What can happen at a station, one thing at a time

Between two moments at which calls may be made from within, a program does one of a few things. They
are the transitions of a stage: a scene together with what the calls in progress have in hand.
-/
namespace CanTransport

/-- A step that has offered a frame and has not come to its end. -/
structure Begun where
  id : EndpointId
  origin : Endpoint
  clock : Micros
  input : Option Frame
  budget : Budget
  frame : Frame
  next : Bool → Micros → Endpoint × StepOutcome
  writes : (origin.step clock input budget).1 = .write frame next
  accepted : Bool := false

/-- What is under way under an endpoint's lock. -/
inductive Task
  | step (b : Begun)
  | ack (id : EndpointId) (ack : Ack)

def Task.id : Task → EndpointId
  | step b => b.id
  | ack id _ => id

/-- What the calls in progress have taken in hand. -/
structure Hand where
  /-- Latest first. -/
  tasks : List Task := []
  /-- Conversations that are over and still to be reported. -/
  untold : List Handle := []
  /-- Conversations reported, whose endpoints are still to be dropped. -/
  told : List Handle := []

def Hand.busy (g : Hand) : List EndpointId := g.tasks.map Task.id

structure Stage where
  scene : Scene
  hand : Hand

namespace Station

def setBudget (s : Station) (budget : Budget) : Station := { s with budget }

def dropAll (s : Station) (handles : List Handle) : Station :=
  handles.foldl (fun s h => s.drop h.id) s

end Station

open Station in
inductive Transition : Stage → Stage → Prop
  | locks {c : Scene} {g : Hand} (held : List Lock) : Transition ⟨c, g⟩ ⟨{ c with held }, g⟩
  | configure {c : Scene} {g : Hand} (settings : Settings) (lastTick : Option Micros) :
    Transition ⟨c, g⟩ ⟨c.access fun s => { s with settings, lastTick }, g⟩
  | adjust {c : Scene} {g : Hand} {id : EndpointId} {change : Endpoint → Endpoint}
      (idle : id ∉ g.busy)
    (setter : Endpoint.Setter change) : Transition ⟨c, g⟩ ⟨c.access (·.modifyEndpoint id change), g⟩
  | request {c : Scene} {g : Hand} {sender : Sender} {rest : Budget} {address : Address}
      {message : List UInt8}
    {kind : MessageType}
    (created : Sender.create address message kind c.station.waitLimit c.station.budget =
      .ok (sender, rest)) :
    Transition ⟨c, g⟩
      ⟨((c.access fun s => (s.adopt (.sender sender) rest).2).access
          (·.enqueue ((Endpoint.sender sender).handle c.station.fresh))).note
        (.admitted c.station.fresh address message kind), g⟩
  | turnDown {c : Scene} {g : Hand} (sender : Sender) (rest : Budget) {address : Address}
      {message : List UInt8}
    {kind : MessageType}
    (created : Sender.create address message kind c.station.waitLimit c.station.budget =
      .ok (sender, rest)) :
    Transition ⟨c, g⟩
      ⟨(c.access fun s => (s.adopt (.sender sender) rest).2).access (·.drop c.station.fresh), g⟩
  | poll {c : Scene} {g : Hand} (ack : Ack) :
    Transition ⟨c, g⟩ ⟨(c.note (.reported ack)).access fun s => (s.record ack).2, g⟩
  /-- An entry is taken out for nobody, or none is ready. -/
  | discard {c : Scene} {g : Hand} (now : Micros) :
    Transition ⟨c, g⟩ ⟨c.access fun s => (s.nextDelivery now).2, g⟩
  | collect {c : Scene} {g : Hand} {now : Micros} {entry : OutboxEntry}
      {id : EndpointId} {ack : Ack}
    (ready : (c.station.nextDelivery now).1 = some entry) (writer : entry.writer = some id)
    (outcome : entry.outcome = some ack) (idle : id ∉ g.busy) :
    Transition ⟨c, g⟩
      ⟨c.access fun s => (s.nextDelivery now).2, { g with tasks := .ack id ack :: g.tasks }⟩
  | acknowledge {c : Scene} {g : Hand} {id : EndpointId} {ack : Ack}
      {tasks : List Task} (now : Micros)
    (under : g.tasks = .ack id ack :: tasks) :
    Transition ⟨c, g⟩ ⟨c.access (·.modifyEndpoint id (·.onAck now ack)), { g with tasks }⟩
  | start {c : Scene} {g : Hand} : Transition ⟨c, g⟩ ⟨c.access startPending, g⟩
  /-- A step that writes nothing and announces nothing. -/
  | rest {c : Scene} {g : Hand} {id : EndpointId} {r next : Endpoint} {frame : Option Frame}
      {now : Micros}
    {outcome : StepOutcome} {budget : Budget} (idle : id ∉ g.busy)
    (found : c.station.endpoint? id = some r)
    (rests : r.step now frame c.station.budget = (.rest next outcome, budget))
    (silent : ∀ length, outcome ≠ .firstFrame length) :
    Transition ⟨c, g⟩ ⟨c.access fun s => (s.setBudget budget).modifyEndpoint id fun _ => next, g⟩
  /-- A step that announces a message, of which the application is told. -/
  | announce {c : Scene} {g : Hand} {id : EndpointId} {r next : Endpoint} {frame : Option Frame}
      {now : Micros}
    {length : Nat} {budget : Budget} (idle : id ∉ g.busy) (found : c.station.endpoint? id = some r)
    (rests : r.step now frame c.station.budget = (.rest next (.firstFrame length), budget))
    (untold : g.untold = []) (told : g.told = []) :
    Transition ⟨c, g⟩
      ⟨(c.access fun s => (s.setBudget budget).modifyEndpoint id fun _ => next).note
        (.told id (.firstFrame r.address length r.kind)), g⟩
  | begin {c : Scene} {g : Hand} (b : Begun) (idle : b.id ∉ g.busy)
    (found : c.station.endpoint? b.id = some b.origin) (budget : b.budget = c.station.budget)
    (fresh : b.accepted = false) :
    Transition ⟨c, g⟩
      ⟨c.access (·.setBudget (b.origin.step b.clock b.input b.budget).2),
        { g with tasks := .step b :: g.tasks }⟩
  | accept {c : Scene} {g : Hand} {b : Begun} {tasks : List Task} (address : Address)
    (under : g.tasks = .step b :: tasks) (offered : b.accepted = false)
    (own : address = b.origin.address) :
    Transition ⟨c, g⟩
      ⟨(c.note (.accepted b.id b.frame)).access fun s =>
        { s with outbox := s.outbox.push address b.id },
          { g with tasks := .step { b with accepted := true } :: tasks }⟩
  | finish {c : Scene} {g : Hand} {b : Begun} {tasks : List Task} (after : Micros)
    (under : g.tasks = .step b :: tasks) :
    Transition ⟨c, g⟩
      ⟨c.access (·.modifyEndpoint b.id fun _ => (b.next b.accepted after).1), { g with tasks }⟩
  | openReception {c : Scene} {g : Hand} {receiver : Receiver} {rest : Budget} {address : Address}
    {blockSize : UInt8} {separation : SeparationTime}
    (quiet : c.station.active.find? address = none)
    (created : Receiver.create address blockSize separation c.station.budget = .ok (receiver, rest))
    (untold : g.untold = []) (told : g.told = []) :
    Transition ⟨c, g⟩
      ⟨c.access fun s =>
        { (s.adopt (.receiver receiver) rest).2 with
          active := s.active.insert address ((Endpoint.receiver receiver).handle s.fresh) }, g⟩
  | mark {c : Scene} {g : Hand} {h : Handle} (genuine : c.station.Genuine h) :
    Transition ⟨c, g⟩ ⟨c.access (·.markFinished h), g⟩
  | retire {c : Scene} {g : Hand} (untold : g.untold = []) (told : g.told = []) :
    Transition ⟨c, g⟩
    ⟨c.access fun s => s.takeFinished.2, { g with untold := c.station.takeFinished.1 }⟩
  | forget {c : Scene} {g : Hand} (address : Address) (now : Micros) :
    Transition ⟨c, g⟩ ⟨c.access fun s => (s.releaseEntries address now).2, g⟩
  | tell {c : Scene} {g : Hand} {h : Handle} {untold : List Handle} {seen : Option Endpoint}
    (next : g.untold = h :: untold)
    (sight : seen = none ∨ seen = c.station.endpoint? h.id ∧ h.id ∉ g.busy) :
    Transition ⟨c, g⟩
      ⟨c.note (.told h.id (completion h seen)), { g with untold, told := g.told ++ [h] }⟩
  | drop {c : Scene} {g : Hand} (untold : g.untold = []) :
    Transition ⟨c, g⟩ ⟨c.access (·.dropAll g.told), { g with told := [] }⟩

/-- Transitions one after the other. -/
inductive Path : Stage → Stage → Prop
  | refl (x : Stage) : Path x x
  | tail {x y z : Stage} (path : Path x y) (last : Transition y z) : Path x z

theorem Path.single {x y : Stage} (h : Transition x y) : Path x y := .tail (.refl x) h

theorem Path.trans {x y z : Stage} (h : Path x y) (h' : Path y z) : Path x z := by
  induction h' with
  | refl => exact h
  | tail _ last ih => exact ih.tail last

/-- What every transition keeps holds along every path. -/
theorem Path.keeps {P : Stage → Prop} {x y : Stage} (h : Path x y) (hx : P x)
    (hstep : ∀ y z, Transition y z → P y → P z) : P y := by
  induction h with
  | refl => exact hx
  | tail _ last ih => exact hstep _ _ last ih

end CanTransport
