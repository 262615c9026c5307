import CanTransport.Proofs.Opening
import CanTransport.Proofs.Hosting

/-! # Ticks of a station with one conversation

A tick settles the outcomes, starts what can be started and attends to the conversation. What that
comes to is read off the step of the endpoint: it rests, writes or is over, or the frame that came
opens a conversation.
-/
namespace CanTransport

namespace Station
open CanTransport.Action

/-- The part of a tick after the outcomes have been delivered and requests have been started. -/
def attend (settings : Settings) : Action Unit := do
  let frame ← receiveFrame settings
  match ← withLock .conversations get with
  | .error _ => return
  | .ok s =>
    let tickAt ← now
    match ← dispatch tickAt frame s.active.handles with
    | some frame => openReceiver frame settings
    | none => pure ()
    retire

def adopted (base : Station) : Station := { base with fresh := base.fresh + 1 }

def ticked (base : Station) (clock : Micros) : Station := { base with lastTick := some clock }

/-- The last tick began no less than the run period ago. -/
def Rested (base : Station) (clock : Micros) : Prop :=
  ∀ last, base.lastTick = some last → base.runPeriod ≤ clock - last

variable {base : Station}

theorem openReception_free (settings : Settings) (address : Address)
    (hb : (labelBytes : Int) ≤ base.budget.remaining) (ht : base.budget.remaining ≤ Budget.top) :
    (hosting base none false []).openReception address settings =
      (some ((Endpoint.receiver (.initial address settings.blockSize settings.separation)).handle
        base.fresh),
        hosting base.adopted
        (some (base.fresh, .receiver (.initial address settings.blockSize settings.separation)))
          false []) := by
  have hbudget : (hosting base none false []).budget = base.budget := by simp [hosting]
  simp only [openReception, addReceiver, hbudget, Receiver.create_eq address _ _ hb ht, adopt]
  simp [hosting, ActiveSet.find?, ActiveSet.insert, adopted, Endpoint.address,
    Endpoint.footprint, Receiver.initial, Receiver.footprint]

end Station

namespace Bench
open Station

/-- The endpoint is handed the frame that came, or none came and a step without one is due. -/
def Takes (settings : Settings) (clock : Micros) (id : EndpointId) (r : Endpoint)
    (frame : Option Frame) : Prop :=
  match frame with
  | some f => settings.admits f = true ∧ (r.handle id).accepts f.id = true ∧ r.isAwaiting = true
  | none => r.isDue clock = true

variable {base : Station} {settings : Settings} {clock : Micros} {id : EndpointId} {r r' : Endpoint}
  {frame : Option Frame} {f : Frame} {queue : List (EndpointId × Endpoint)} {inbox : List Frame}
  {notices : List Notice} {unheard : Bool}

namespace NodeRun
variable {d : NodeRun}

@[simp] theorem run_inspect (id : EndpointId) (view : Endpoint → Bool) (d : NodeRun) :
    (inspect id view).run answer d = ((d.station.endpoint? id).any view, d) := by
  simp [inspect, Program.run_bind, Except.toOption]

theorem run_tick (d : NodeRun) : (tick.run answer d).2 =
    ((attend d.station.settings).run answer
      { (settle.run answer d).2 with
        station := (settle.run answer d).2.station.startPending }).2 := by
  have ht : tick = (Action.withLock .settings Action.get).bind fun
      | .error _ => .done ()
      | .ok s => settle.bind fun _ => startWaiting.bind fun _ => attend s.settings := rfl
  simp only [ht, startWaiting, Program.bind_eq, Program.run_bind, run_withLock, run_get,
    run_modify, Program.pure_eq, Program.run_done]

theorem receiveFrame_run (hi : d.inbox = frame.toList)
    (hf : ∀ f, frame = some f → settings.admits f = true) :
    (receiveFrame settings).run answer d = (frame, { d with inbox := [] }) := by
  obtain ⟨⟨station, inbox, outcomes, notices⟩, clock, sent⟩ := d
  obtain rfl : inbox = frame.toList := hi
  cases frame with
  | none => simp [receiveFrame, Program.run_bind]
  | some f => simp [receiveFrame, Program.run_bind, hf f rfl]

theorem dispatch_run (hr : d.station.endpoint? id = some r)
    (ht : Takes settings d.clock id r frame) :
    ((dispatch d.clock frame [r.handle id]).run answer d) =
      (none, (((stepEndpoint id frame).bind (passOn (r.handle id))).run answer d).2) := by
  have hi : (r.handle id).id = id := rfl
  cases frame with
  | none =>
    have hd : r.isDue d.clock = true := ht
    simp [dispatch, dispatchOne, isDue, Program.run_bind, hi, hr, hd]
  | some f =>
    obtain ⟨-, ha, hw⟩ := ht
    simp [dispatch, dispatchOne, isAwaiting, Program.run_bind, hi, hr, ha, hw]

theorem retire_quiet (hf : d.station.finished = []) : (retire.run answer d).2 = d := by
  obtain ⟨⟨⟨settings, budget, runPeriod, ackPeriod, waitLimit, endpoints, fresh, pending,
      active, finished, outbox,
    lastTick⟩, inbox, outcomes, notices⟩, clock, sent⟩ := d
  obtain rfl : finished = [] := hf
  rfl

theorem retire_finished (hid : id ∉ queue.map (·.1)) (ht : base.budget.remaining ≤ Budget.top)
    (hb : footprints queue ≤ base.budget.remaining) :
    (retire.run answer
      ⟨⟨(hosting base (some (id, r)) false queue).markFinished (r.handle id), [], [], notices⟩,
        clock, []⟩).2 =
      ⟨⟨hosting base none false queue, [], [], notices ++ [completion (r.handle id) (some r)]⟩,
        clock, []⟩ := by
  have hi : (r.handle id).id = id := rfl
  simp only [retire, report, forget, reportEnd, Program.bind_eq, Program.run_bind,
    run_withLock, run_modifyGet, takeFinished_hosting, releaseEntries_ended, run_now, run_get,
    run_notify, run_modify, hi, endpoint?_ended]
  exact congrArg
    (fun s => (⟨⟨s, [], [], notices ++ [completion (r.handle id) (some r)]⟩, clock, []⟩ : NodeRun))
    (drop_ended hid ht hb)

theorem attend_conversation (ht : Takes settings clock id r frame) :
    ((attend settings).run answer
      ⟨⟨hosting base (some (id, r)) false queue, frame.toList, [], notices⟩, clock, []⟩).2 =
      (retire.run answer (((stepEndpoint id frame).bind (passOn (r.handle id))).run answer
        ⟨⟨hosting base (some (id, r)) false queue, [], [], notices⟩, clock, []⟩).2).2 := by
  have hf : ∀ f, frame = some f → settings.admits f = true := by
    rintro f rfl
    exact ht.1
  have hr : (receiveFrame settings).run answer
      ⟨⟨hosting base (some (id, r)) false queue, frame.toList, [], notices⟩, clock, []⟩ =
      (frame, ⟨⟨hosting base (some (id, r)) false queue, [], [], notices⟩, clock, []⟩) :=
      receiveFrame_run rfl hf
  have hd := dispatch_run
      (d := ⟨⟨hosting base (some (id, r)) false queue, [], [], notices⟩, clock, []⟩)
      endpoint?_hosting ht
  have ha : (hosting base (some (id, r)) false queue).active.handles = [r.handle id] := rfl
  simp only [attend, Program.bind_eq, Program.run_bind, hr, run_withLock, run_get, run_now, ha, hd]

theorem attend_reception {budget : Budget} {outcome : StepOutcome} (hf : settings.admits f = true)
    (hroom : (labelBytes : Int) ≤ base.budget.remaining) (htop : base.budget.remaining ≤ Budget.top)
    (hs : (Endpoint.receiver (.initial f.id settings.blockSize settings.separation)).step clock
      (some f) ⟨base.budget.remaining - labelBytes⟩ = (.rest r' outcome, budget))
    (hb : budget.remaining = base.budget.remaining - r'.footprint) :
    ((attend settings).run answer ⟨⟨hosting base none false [], [f], [], notices⟩, clock, []⟩).2 =
      (retire.run answer ((passOn (r'.handle base.fresh) outcome).run answer
        ⟨⟨hosting base.adopted (some (base.fresh, r')) false [], [], [], notices⟩,
          clock, []⟩).2).2 := by
  have hr : (receiveFrame settings).run answer
      ⟨⟨hosting base none false [], [f], [], notices⟩, clock, []⟩ =
      (some f, ⟨⟨hosting base none false [], [], [], notices⟩, clock, []⟩) := by
    apply receiveFrame_run rfl
    intro g hg
    exact Option.some.inj hg ▸ hf
  have hd : (dispatch clock (some f) []).run answer
      ⟨⟨hosting base none false [], [], [], notices⟩, clock, []⟩ =
    (some f, ⟨⟨hosting base none false [], [], [], notices⟩, clock, []⟩) := rfl
  have ha : (hosting base none false []).active.handles = [] := rfl
  have hrun : (attend settings).run answer
      ⟨⟨hosting base none false [], [f], [], notices⟩, clock, []⟩ =
      retire.run answer
        ((openReceiver f settings).run answer
          ⟨⟨hosting base none false [], [], [], notices⟩, clock, []⟩).2 := by
    simp only [attend, Program.bind_eq, Program.run_bind, hr, run_withLock, run_get, run_now, ha,
      hd]
  generalize hreceiver : Endpoint.receiver (.initial f.id settings.blockSize settings.separation) =
    r at hs
  have hh : r'.handle base.fresh = r.handle base.fresh := by
    have h := r.handle_step base.fresh clock clock (some f)
        ⟨base.budget.remaining - labelBytes⟩ true
    rwa [hs] at h
  have hbudget : (hosting base.adopted (some (base.fresh, r)) false []).budget =
      ⟨base.budget.remaining - labelBytes⟩ := by
    simp [hosting, adopted, ← hreceiver, Endpoint.footprint, Receiver.footprint, Receiver.initial]
  have hstep := stepEndpoint_rest
      (d := ⟨⟨hosting base.adopted (some (base.fresh, r)) false [], [], [], notices⟩,
    clock, []⟩) endpoint?_hosting (hbudget ▸ hs)
  rw [show _ = hosting base.adopted (some (base.fresh, r')) false [] from modifyEndpoint_paid hh hb]
    at hstep
  have hopen := openReception_free settings f.id hroom htop
  have hi : (r.handle base.fresh).id = base.fresh := rfl
  rw [hreceiver] at hopen
  rw [hrun]
  simp only [openReceiver, Program.bind_eq, Program.run_bind, run_withLock, run_modifyGet, hopen,
    hh]
  dsimp only [Except.toOption, Option.join, Option.bind, id]
  rw [Program.run_bind, hi, hstep]

end NodeRun

/-- A station with one conversation at most, between two ticks. -/
def NodeView.hosting (base : Station) (current : Option (EndpointId × Endpoint)) (unheard : Bool)
    (queue : List (EndpointId × Endpoint)) (inbox : List Frame) (notices : List Notice) :
    NodeView where
  station := base.hosting current unheard queue
  inbox
  outcomes := if unheard then [.success] else []
  notices

namespace NodeView

def run {α : Type} (x : NodeView) (p : Action α) (clock : Micros) : NodeView × List Frame :=
  ((p.run NodeRun.answer { x with clock }).2.toNodeView,
    (p.run NodeRun.answer { x with clock }).2.sent)

theorem run_eq {α : Type} {x y : NodeView} {p : Action α} {sent : List Frame}
    (h : (p.run NodeRun.answer ⟨x, clock, []⟩).2 = ⟨y, clock, sent⟩) :
    x.run p clock = (y, sent) := by
  rw [run, h]

variable {next : Bool → Micros → Endpoint × StepOutcome} {result : TransferResult}

theorem handle_of_rest {outcome : StepOutcome}
    (hs : ∀ budget, r.step clock frame budget = (.rest r' outcome, budget)) :
    r'.handle id = r.handle id := by
  have h := r.handle_step id clock clock frame ⟨0⟩ true
  rwa [hs] at h

theorem attend_rest (ht : Takes settings clock id r frame) (hid : id ∉ queue.map (·.1))
    (hp : r'.footprint = r.footprint)
    (hs : ∀ budget, r.step clock frame budget = (.rest r' .inProgress, budget)) :
    (hosting base (some (id, r)) false queue frame.toList notices).run (attend settings) clock =
      (hosting base (some (id, r')) false queue [] notices, []) := by
  have hh : r'.handle id = r.handle id := handle_of_rest hs
  have hm : (base.hosting (some (id, r)) false queue).modifyEndpoint id (fun _ => r') = _ :=
    modifyEndpoint_hosting hid hh hp
  have hstep := NodeRun.stepEndpoint_rest
      (d := ⟨⟨base.hosting (some (id, r)) false queue, [], [], notices⟩, clock, []⟩)
    endpoint?_hosting (hs _)
  refine run_eq ((NodeRun.attend_conversation ht).trans ?_)
  rw [Program.run_bind, hstep]
  exact (NodeRun.retire_quiet rfl).trans
    (congrArg (fun s => (⟨⟨s, [], [], notices⟩, clock, []⟩ : NodeRun)) hm)

theorem attend_write (ht : Takes settings clock id r frame) (hid : id ∉ queue.map (·.1))
    (hp : r'.footprint = r.footprint)
    (hs : ∀ budget, r.step clock frame budget = (.write f next, budget))
    (hn : next true clock = (r', .inProgress)) :
    (hosting base (some (id, r)) false queue frame.toList notices).run (attend settings) clock =
      (hosting base (some (id, r')) true queue [] notices, [f]) := by
  have hh : r'.handle id = r.handle id := by
    have h := r.handle_step id clock clock frame ⟨0⟩ true
    rwa [hs, Move.finish_write, hn] at h
  have hstep := NodeRun.stepEndpoint_write
      (d := ⟨⟨base.hosting (some (id, r)) false queue, [], [], notices⟩, clock, []⟩)
    endpoint?_hosting (hs _) hn
  refine run_eq ((NodeRun.attend_conversation ht).trans ?_)
  rw [Program.run_bind, hstep]
  apply (NodeRun.retire_quiet rfl).trans
  exact congrArg (fun s => (⟨⟨s, [], [.success], notices⟩, clock, [f]⟩ : NodeRun))
    (modifyEndpoint_pushed hid hh hp)

theorem attend_finish (ht : Takes settings clock id r frame) (hid : id ∉ queue.map (·.1))
    (hp : r'.footprint = r.footprint)
    (hs : ∀ budget, r.step clock frame budget = (.rest r' (.finished result), budget))
    (htop : base.budget.remaining ≤ Budget.top) (hb : footprints queue ≤ base.budget.remaining) :
    (hosting base (some (id, r)) false queue frame.toList notices).run (attend settings) clock =
      (hosting base none false queue [] (notices ++ [completion (r'.handle id) (some r')]),
        []) := by
  have hh : r'.handle id = r.handle id := handle_of_rest hs
  have hm : (base.hosting (some (id, r)) false queue).modifyEndpoint id (fun _ => r') = _ :=
    modifyEndpoint_hosting hid hh hp
  have hstep := NodeRun.stepEndpoint_rest
      (d := ⟨⟨base.hosting (some (id, r)) false queue, [], [], notices⟩, clock, []⟩)
    endpoint?_hosting (hs _)
  refine run_eq ((NodeRun.attend_conversation ht).trans ?_)
  rw [Program.run_bind, hstep]
  simp only [passOn, Program.bind_eq, Program.run_bind, NodeRun.run_withLock,
    NodeRun.run_modify, hm]
  rw [← hh]
  exact NodeRun.retire_finished hid htop hb

theorem attend_pause (hd : r.isDue clock = false) :
    (hosting base (some (id, r)) false queue [] notices).run (attend settings) clock =
      (hosting base (some (id, r)) false queue [] notices, []) := by
  have hr : (receiveFrame settings).run NodeRun.answer
      ⟨⟨base.hosting (some (id, r)) false queue, [], [], notices⟩, clock, []⟩ =
      (none, ⟨⟨base.hosting (some (id, r)) false queue, [], [], notices⟩, clock, []⟩) :=
      NodeRun.receiveFrame_run rfl nofun
  have ha : (base.hosting (some (id, r)) false queue).active.handles = [r.handle id] := rfl
  have hi : (r.handle id).id = id := rfl
  have hdispatch : (dispatch clock none [r.handle id]).run NodeRun.answer
      ⟨⟨base.hosting (some (id, r)) false queue, [], [], notices⟩, clock, []⟩ =
      (none, ⟨⟨base.hosting (some (id, r)) false queue, [], [], notices⟩, clock, []⟩) := by
    simp [dispatch, dispatchOne, isDue, Program.run_bind, hi, endpoint?_hosting, hd]
  have hrun : ((attend settings).run NodeRun.answer
      ⟨⟨base.hosting (some (id, r)) false queue, [], [], notices⟩, clock, []⟩).2 =
      (retire.run NodeRun.answer ⟨⟨base.hosting (some (id, r)) false queue, [], [], notices⟩, clock,
        []⟩).2 := by
    simp only [attend, Program.bind_eq, Program.run_bind, hr, NodeRun.run_withLock,
      NodeRun.run_get, NodeRun.run_now, ha, hdispatch]
  exact run_eq (hrun.trans (NodeRun.retire_quiet rfl))

variable {budget : Budget}

theorem attend_first {length : Nat} (hf : settings.admits f = true)
    (hroom : (labelBytes : Int) ≤ base.budget.remaining) (htop : base.budget.remaining ≤ Budget.top)
    (hs : (Endpoint.receiver (.initial f.id settings.blockSize settings.separation)).step clock
      (some f) ⟨base.budget.remaining - labelBytes⟩ = (.rest r' (.firstFrame length), budget))
    (hb : budget.remaining = base.budget.remaining - r'.footprint) :
    (hosting base none false [] [f] notices).run (attend settings) clock =
      (hosting base.adopted (some (base.fresh, r')) false [] []
        (notices ++ [.firstFrame r'.address length r'.kind]), []) :=
  run_eq ((NodeRun.attend_reception hf hroom htop hs hb).trans (NodeRun.retire_quiet rfl))

theorem attend_single (hf : settings.admits f = true)
    (hroom : (labelBytes : Int) ≤ base.budget.remaining) (htop : base.budget.remaining ≤ Budget.top)
    (hs : (Endpoint.receiver (.initial f.id settings.blockSize settings.separation)).step clock
      (some f) ⟨base.budget.remaining - labelBytes⟩ = (.rest r' (.finished result), budget))
    (hb : budget.remaining = base.budget.remaining - r'.footprint) :
    (hosting base none false [] [f] notices).run (attend settings) clock =
      (hosting base.adopted none false [] []
        (notices ++ [completion (r'.handle base.fresh) (some r')]), []) :=
  run_eq ((NodeRun.attend_reception hf hroom htop hs hb).trans
    (NodeRun.retire_finished List.not_mem_nil htop (Int.le_trans (by decide) hroom)))

theorem attend_idle : (hosting base none false [] [] notices).run (attend settings) clock =
    (hosting base none false [] [] notices, []) := rfl

/-- The endpoint once it has heard what there is to hear. -/
def heard (unheard : Bool) (clock : Micros) (r : Endpoint) : Endpoint :=
  if unheard then r.onAck clock .success else r

theorem tick_eq {x : NodeView} (h : x.station.Rested clock) :
    x.run tickIfDue clock = { x with station := x.station.ticked clock }.run tick clock := by
  have hdue : ¬ (x.station.lastTick.any fun last => clock - last < x.station.runPeriod) = true := by
    cases hl : x.station.lastTick with
    | none => exact Bool.false_ne_true
    | some last => simpa using h last hl
  have hrun : (tickIfDue.run NodeRun.answer ⟨x, clock, []⟩).2 =
      (tick.run NodeRun.answer ⟨{ x with station := x.station.ticked clock }, clock, []⟩).2 := by
    simp only [tickIfDue, throughGate, Program.bind_eq, Program.run_bind, NodeRun.run_isActive,
      if_true, NodeRun.run_withLock, NodeRun.run_now, NodeRun.run_get,
      Program.pure_eq, Program.run_done]
    exact (congrArg (fun p : Action Unit => (p.run NodeRun.answer ⟨x, clock, []⟩).2)
      (if_neg hdue)).trans rfl
  rw [run, hrun]
  rfl

/-- What is attended to is what the outcomes and the requests leave. -/
theorem tick_settled {x y : NodeView} (h : x.station.Rested clock)
    (hs : (settle.run NodeRun.answer ⟨{ x with station := x.station.ticked clock }, clock, []⟩).2 =
      ⟨y, clock, []⟩) :
    x.run tickIfDue clock = { y with station := y.station.startPending }.run
    (attend x.station.settings) clock := by
  rw [tick_eq h, run, NodeRun.run_tick]
  change ((Program.run NodeRun.answer _
    { (settle.run NodeRun.answer ⟨{ x with station := x.station.ticked clock }, clock, []⟩).2 with
    station := _ }).2.toNodeView, _) = _
  rw [hs]
  rfl

theorem tick_conversation (h : base.Rested clock) (hid : id ∉ queue.map (·.1))
    (ha : ∀ p ∈ queue, p.2.address = r.address) :
    (hosting base (some (id, r)) unheard queue inbox notices).run tickIfDue clock =
      (hosting (base.ticked clock) (some (id, heard unheard clock r)) false queue inbox notices).run
        (attend base.settings) clock := by
  have hs : (settle.run NodeRun.answer
      ⟨hosting (base.ticked clock) (some (id, r)) unheard queue inbox notices, clock, []⟩).2 =
      ⟨hosting (base.ticked clock) (some (id, heard unheard clock r)) false queue inbox notices,
        clock, []⟩ := by
    cases unheard with
    | false => exact NodeRun.settle_quiet rfl
    | true => exact NodeRun.settle_heard hid
  have haddress : (heard unheard clock r).address = r.address := by
    cases unheard with
    | false => rfl
    | true => exact congrArg Handle.address (r.handle_onAck id clock .success)
  have hp : ((base.ticked clock).hosting (some (id, heard unheard clock r))
      false queue).startPending = _ :=
    startPending_busy fun p hp => (ha p hp).trans haddress.symm
  apply (tick_settled (x := hosting base (some (id, r)) unheard queue inbox notices) h hs).trans
  exact congrArg (fun s => ({ station := s, inbox, notices } : NodeView).run (attend base.settings)
    clock) hp

theorem tick_start (h : base.Rested clock) (ha : ∀ p ∈ queue, p.2.address = r.address) :
    (hosting base none false ((id, r) :: queue) inbox notices).run tickIfDue clock =
      (hosting (base.ticked clock) (some (id, r)) false queue inbox notices).run
      (attend base.settings) clock := by
  have hp : ((base.ticked clock).hosting none false ((id, r) :: queue)).startPending = _ :=
    startPending_free ha
  apply (tick_settled (x := hosting base none false ((id, r) :: queue) inbox notices)
    h (NodeRun.settle_quiet rfl)).trans
  exact congrArg (fun s => ({ station := s, inbox, notices } : NodeView).run (attend base.settings)
    clock) hp

theorem tick_vacant (h : base.Rested clock) :
    (hosting base none false [] inbox notices).run tickIfDue clock =
      (hosting (base.ticked clock) none false [] inbox notices).run (attend base.settings) clock :=
  tick_settled (x := hosting base none false [] inbox notices) h (NodeRun.settle_quiet rfl)

end NodeView
end Bench
end CanTransport
