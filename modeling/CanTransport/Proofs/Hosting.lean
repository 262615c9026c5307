import CanTransport.Proofs.NodeRuns
import CanTransport.Proofs.Handles

/-! # Ticks of a station with one conversation

All requests of the station are for one identifier: one runs and the others wait. A tick hears of
the frame that was written last, takes a step and says what came of it.
-/
namespace CanTransport

namespace Endpoint

theorem footprint_sender_congr {s s' : Sender} (h : s.message = s'.message) :
    (sender s).footprint = (sender s').footprint :=
      congrArg (fun m : List UInt8 => m.length + labelBytes) h

theorem footprint_receiver_congr {r r' : Receiver} (h : r.expected = r'.expected) :
    (receiver r).footprint = (receiver r').footprint := congrArg (· + labelBytes) h

end Endpoint

namespace Station

/-- Bytes that conversations hold of the budget. -/
def footprints (conversations : List (EndpointId × Endpoint)) : Nat :=
  conversations.foldr (fun p held => p.2.footprint + held) 0

@[simp] theorem footprints_nil : footprints [] = 0 := rfl

@[simp] theorem footprints_cons (p : EndpointId × Endpoint) (rest : List (EndpointId × Endpoint)) :
    footprints (p :: rest) = p.2.footprint + footprints rest := rfl

@[simp] theorem footprints_append (l l' : List (EndpointId × Endpoint)) :
    footprints (l ++ l') = footprints l + footprints l' := by
  induction l with
  | nil => simp
  | cons p l ih => simp [ih, Nat.add_assoc]

/-- A station with a conversation, if there is one, and requests that wait for its identifier. The
outcome of the frame that it wrote last may still be unheard. -/
def hosting (base : Station) (current : Option (EndpointId × Endpoint)) (unheard : Bool)
    (queue : List (EndpointId × Endpoint)) : Station :=
  { base with
    endpoints := current.toList ++ queue
    pending := queue.map fun p => p.2.handle p.1
    active := current.toList.map fun p => (p.2.address, p.2.handle p.1)
    finished := []
    outbox := if unheard then current.toList.map fun p =>
      { address := p.2.address, writer := some p.1 } else []
    budget := ⟨base.budget.remaining - footprints (current.toList ++ queue)⟩ }

variable {base : Station} {id : EndpointId} {r r' : Endpoint} {unheard : Bool}
  {queue : List (EndpointId × Endpoint)}

theorem endpoint?_hosting : (hosting base (some (id, r)) unheard queue).endpoint? id = some r := by
  simp [hosting, endpoint?]

theorem map_others {l : List (EndpointId × Endpoint)} {f : Endpoint → Endpoint}
    (h : ∀ p ∈ l, p.1 ≠ id) :
    l.map (fun (i, r) => (i, if i = id then f r else r)) = l := by
  refine (List.map_congr_left fun p hp => ?_).trans (List.map_id l)
  obtain ⟨i, r⟩ := p
  exact congrArg (i, ·) (if_neg (h _ hp))

theorem modifyEndpoint_hosting {f : Endpoint → Endpoint} (hid : id ∉ queue.map (·.1))
    (hh : (f r).handle id = r.handle id) (hf : (f r).footprint = r.footprint) :
    (hosting base (some (id, r)) unheard queue).modifyEndpoint id f =
      hosting base (some (id, f r)) unheard queue := by
  have hqueue : queue.map (fun p => (p.1, if p.1 = id then f p.2 else p.2)) = queue := by
    refine map_others fun p hp he => ?_
    subst he
    exact hid (List.mem_map_of_mem hp)
  have ha : (f r).address = r.address := congrArg Handle.address hh
  simp [hosting, modifyEndpoint, hqueue, ha, hh, hf]

theorem modifyEndpoint_pushed (hid : id ∉ queue.map (·.1)) (hh : r'.handle id = r.handle id)
    (hf : r'.footprint = r.footprint) :
    { hosting base (some (id, r)) false queue with
      outbox := (hosting base (some (id, r)) false queue).outbox.push r.address id }.modifyEndpoint
        id (fun _ => r') =
      hosting base (some (id, r')) true queue := by
  have ha : r'.address = r.address := congrArg Handle.address hh
  have hm : (hosting base (some (id, r)) false queue).modifyEndpoint id (fun _ => r') = _ :=
    modifyEndpoint_hosting hid hh hf
  rw [← ha]
  exact congrArg
    (fun s : Station => { s with outbox := [{ address := r'.address, writer := some id }] }) hm

theorem modifyEndpoint_paid {budget : Budget} (hh : r'.handle id = r.handle id)
    (hb : budget.remaining = base.budget.remaining - r'.footprint) :
    { hosting base (some (id, r)) false [] with budget }.modifyEndpoint id (fun _ => r') =
      hosting base (some (id, r')) false [] := by
  have ha : r'.address = r.address := congrArg Handle.address hh
  obtain ⟨remaining⟩ := budget
  obtain rfl : remaining = base.budget.remaining - r'.footprint := hb
  simp [hosting, modifyEndpoint, ha, hh]

/-- Behind a running conversation all requests for its identifier go on waiting. -/
theorem foldl_startOrEnqueue_busy {s : Station} {waiting : List Handle}
    (hb : ∀ h ∈ waiting, (s.active.find? h.address).isSome) :
    waiting.foldl startOrEnqueue s = { s with pending := s.pending ++ waiting } := by
  induction waiting generalizing s with
  | nil => rw [List.append_nil]; rfl
  | cons h rest ih =>
    have hh : s.startOrEnqueue h = s.enqueue h := if_pos (hb h List.mem_cons_self)
    have hr : ∀ g ∈ rest, ((s.enqueue h).active.find? g.address).isSome :=
      fun g hg => hb g (List.mem_cons_of_mem _ hg)
    rw [List.foldl_cons, hh, ih hr]
    simp [enqueue]

theorem find?_hosting : (hosting base (some (id, r)) unheard queue).active.find? r.address =
      some (r.handle id) := by
  simp [hosting, ActiveSet.find?]

theorem startPending_busy (ha : ∀ p ∈ queue, p.2.address = r.address) :
    (hosting base (some (id, r)) unheard queue).startPending =
      hosting base (some (id, r)) unheard queue := by
  apply foldl_startOrEnqueue_busy
  intro h hh
  obtain ⟨p, hp, rfl⟩ := List.mem_map.mp hh
  change (ActiveSet.find? (hosting base (some (id, r)) unheard queue).active p.2.address).isSome
  rw [ha p hp, find?_hosting]
  rfl

theorem startPending_free (ha : ∀ p ∈ queue, p.2.address = r.address) :
    (hosting base none unheard ((id, r) :: queue)).startPending =
      hosting base (some (id, r)) false queue := by
  have hfirst : startOrEnqueue { hosting base none unheard ((id, r) :: queue) with pending := [] }
      (r.handle id) = { hosting base (some (id, r)) false queue with pending := [] } := by
    simp [startOrEnqueue, hosting, ActiveSet.find?, ActiveSet.insert, Endpoint.handle]
  have hrest : ∀ h ∈ queue.map (fun p => p.2.handle p.1),
      (ActiveSet.find? { hosting base (some (id, r)) false queue with pending := [] }.active
        h.address).isSome := by
    intro h hh
    obtain ⟨p, hp, rfl⟩ := List.mem_map.mp hh
    change (ActiveSet.find? (hosting base (some (id, r)) unheard queue).active p.2.address).isSome
    rw [ha p hp, find?_hosting]
    rfl
  change (queue.map fun p => p.2.handle p.1).foldl startOrEnqueue (startOrEnqueue _ _) = _
  rw [hfirst, foldl_startOrEnqueue_busy hrest]
  rfl

/-- The conversation is taken off its identifier, and its endpoint is still to be dropped. -/
def ended (base : Station) (id : EndpointId) (r : Endpoint) (queue : List (EndpointId × Endpoint)) :
    Station :=
  { hosting base (some (id, r)) false queue with active := [] }

theorem takeFinished_hosting :
    ((hosting base (some (id, r)) false queue).markFinished (r.handle id)).takeFinished =
      ([r.handle id], ended base id r queue) := by
  simp [takeFinished, markFinished, retireOne, isCurrent, ended, hosting, ActiveSet.find?,
    ActiveSet.erase, Endpoint.handle]

theorem endpoint?_ended : (ended base id r queue).endpoint? id = some r := by
  simp [ended, endpoint?, hosting]

theorem releaseEntries_ended (address : Address) (now : Micros) :
    (ended base id r queue).releaseEntries address now = (0, ended base id r queue) := rfl

theorem drop_ended (hid : id ∉ queue.map (·.1)) (ht : base.budget.remaining ≤ Budget.top)
    (hb : footprints queue ≤ base.budget.remaining) :
    (ended base id r queue).drop id = hosting base none false queue := by
  have hkept : ((id, r) :: queue).filter (·.1 ≠ id) = queue := by
    rw [List.filter_cons_of_neg (by simp)]
    apply List.filter_eq_self.mpr
    intro p hp
    have hne : p.1 ≠ id := by
      rintro rfl
      exact hid (List.mem_map_of_mem hp)
    simpa using hne
  have hbytes (held rest : Nat) (h : (rest : Int) ≤ base.budget.remaining) :
      Budget.saturate (base.budget.remaining - ((held + rest : Nat) : Int) + held) =
      base.budget.remaining - rest := by
    have hs : base.budget.remaining - ((held + rest : Nat) : Int) + held =
        base.budget.remaining - rest := by omega
    rw [hs, Budget.saturate, Int.min_eq_left (by omega), Int.max_eq_right]
    exact Int.le_trans (by decide) (Int.sub_nonneg_of_le h)
  rw [Station.drop, endpoint?_ended]
  simp only [ended, hosting, Budget.release, Budget.add, Option.toList_some, Option.toList_none,
    List.singleton_append, List.nil_append, List.map_cons, footprints_cons, List.map_nil, if_false,
    Bool.false_eq_true, hbytes _ _ hb]
  rw [hkept]

end Station

namespace Bench.NodeRun
open Station

variable {base : Station} {id : EndpointId} {r : Endpoint} {queue : List (EndpointId × Endpoint)}
  {inbox : List Frame} {notices : List Notice} {clock : Micros} {sent : List Frame}

theorem expected_consume (r : Receiver) (clock : Micros) (f : Frame) :
    (r.consume clock f).expected = r.expected := by
  have consumes := r.consume_consumes clock f
  generalize r.consume clock f = r' at consumes ⊢
  cases consumes <;> rfl

theorem footprint_onAck (r : Endpoint) (clock : Micros) (ack : Ack) :
    (r.onAck clock ack).footprint = r.footprint := by
  cases r with
  | sender s =>
    obtain ⟨-, hm, -⟩ : (s.onAck clock ack).address = s.address ∧
        (s.onAck clock ack).message = s.message ∧ _ := by
      simpa [Sender.subject] using s.subject_onAck clock ack
    exact Endpoint.footprint_sender_congr hm
  | receiver r =>
    apply Endpoint.footprint_receiver_congr
    have learns := r.onAck_learns clock ack
    generalize r.onAck clock ack = r' at learns ⊢
    cases learns with
    | replays => exact expected_consume _ clock _
    | closed | fails | unasked | confirmed => rfl

theorem settle_quiet {s : Station} (hs : s.outbox = []) :
    (settle.run answer ⟨⟨s, inbox, [], notices⟩, clock, sent⟩).2 =
      ⟨⟨s, inbox, [], notices⟩, clock, sent⟩ := by
  obtain ⟨settings, budget, runPeriod, ackPeriod, waitLimit, endpoints, fresh, pending, active,
      finished, outbox, lastTick⟩ := s
  obtain rfl : outbox = [] := hs
  rfl

theorem deliverEntry_run {d : NodeRun} {e : OutboxEntry} {a : Ack} (hw : e.writer = some id)
    (ho : e.outcome = some a) (hr : d.station.endpoint? id = some r) :
    (deliverEntry e).run answer d =
      (true, { d with station := d.station.modifyEndpoint id (·.onAck d.clock a) }) := by
  simp [deliverEntry, ackEndpoint, Program.run_bind, hw, ho, hr, Option.filter]

theorem deliverNext_single {d : NodeRun} {address : Address} {a : Ack}
    (ho : d.station.outbox = [{ address, writer := some id, outcome := some a }])
    (hr : d.station.endpoint? id = some r) :
    deliverNext.run answer d = (some true, { d with
      station := { d.station with outbox := [] }.modifyEndpoint id (·.onAck d.clock a) }) := by
  have hnext : d.station.nextDelivery d.clock =
      (some { address, writer := some id, outcome := some a },
        { d.station with outbox := [] }) := by
    rw [nextDelivery, ho]
    rfl
  have htaken : deliverNext.run answer d =
      ((deliverEntry { address, writer := some id, outcome := some a }).bind fun delivered =>
        .done (some delivered)).run answer
          { d with station := { d.station with outbox := [] } } := by
    simp [deliverNext, Program.run_bind, hnext, Except.toOption]
  rw [htaken, Program.run_bind, deliverEntry_run
    (d := { d with station := { d.station with outbox := [] } }) rfl rfl hr]
  rfl

theorem settle_heard (hid : id ∉ queue.map (·.1)) :
    (settle.run answer ⟨⟨hosting base (some (id, r)) true queue, inbox, [.success], notices⟩, clock,
      sent⟩).2 = ⟨⟨hosting base (some (id, r.onAck clock .success)) false queue, inbox, [],
      notices⟩, clock, sent⟩ := by
  have hm : (hosting base (some (id, r)) false queue).modifyEndpoint id (·.onAck clock .success) =
      _ :=
    modifyEndpoint_hosting hid (r.handle_onAck id clock .success) (footprint_onAck r clock .success)
  have hfound : (hosting base (some (id, r)) true queue).endpoint? id = some r := endpoint?_hosting
  have hpolled : (settle.run answer
      ⟨⟨hosting base (some (id, r)) true queue, inbox, [.success], notices⟩, clock, sent⟩).2 =
      ((deliverUpTo 2).run answer ⟨⟨{ hosting base (some (id, r)) true queue with
        outbox := [{ address := r.address, writer := some id, outcome := some .success }] }, inbox,
          [], notices⟩,
        clock, sent⟩).2 := rfl
  rw [hpolled, deliverUpTo, Program.bind_eq, Program.run_bind, deliverNext_single rfl hfound]
  exact congrArg (fun s => (⟨⟨s, inbox, [], notices⟩, clock, sent⟩ : NodeRun)) hm

theorem stepEndpoint_rest {d : NodeRun} {frame : Option Frame} {next : Endpoint}
    {result : StepOutcome} {budget : Budget} (hr : d.station.endpoint? id = some r)
    (hs : r.step d.clock frame d.station.budget = (.rest next result, budget)) :
    (stepEndpoint id frame).run answer d =
      (result,
        { d with station := { d.station with budget }.modifyEndpoint id fun _ => next }) := by
  simp [stepEndpoint, beginStep, Program.run_bind, hr, hs, finishStep, Except.toOption]

theorem stepEndpoint_write {d : NodeRun} {frame : Option Frame} {f : Frame}
    {next : Bool → Micros → Endpoint × StepOutcome} {r' : Endpoint} {result : StepOutcome}
    (hr : d.station.endpoint? id = some r)
    (hs : r.step d.clock frame d.station.budget = (.write f next, d.station.budget))
    (hn : next true d.clock = (r', result)) :
    (stepEndpoint id frame).run answer d =
      (result, { d with
        station := { d.station with outbox := d.station.outbox.push r.address id }.modifyEndpoint id
          fun _ => r'
        outcomes := d.outcomes ++ [.success]
        sent := d.sent ++ [f] }) := by
  simp [stepEndpoint, beginStep, Program.run_bind, hr, hs, finishStep, Except.toOption, send, hn]

end Bench.NodeRun
end CanTransport
