import CanTransport.Proofs.Blocks
import CanTransport.Proofs.Receptions

/-! # Flow control that overtakes an outcome

A controller may have the peer's flow control in its inbox before it reports the success of the
frame that is answered. The sender does not wait for flow control by then, so that nobody claims it:
it opens a reception, which is turned down, and is lost. The sender is left waiting, where it would
have gone on had it heard of its frame first.
-/
namespace CanTransport

namespace Sender
variable {s : Sender} {f : Frame} {now : Micros} {last : Option Block}

/-- Once it hears of its last frame, the sender waits for flow control. -/
inductive AboutToWait (s : Sender) : Prop
  | first (phase : s.phase = .awaitFirstAck)
  | next (phase : s.phase = .awaitConsecutiveAck) (more : s.offset < s.message.length)
      (full : s.blockComplete = true)

/-- Flow control from the sender's peer that lets the next block go. -/
structure LetsGo (s : Sender) (f : Frame) : Prop where
  id : f.id = s.address.reversed
  form : isFlowControl f = true
  status : FlowStatus.ofCode? (lowNibble (f.byte 0)) = some .continueToSend

theorem AboutToWait.asks (h : s.AboutToWait) : ∃ last, s.Asks last 1 := by
  cases h with
  | first phase => exact ⟨none, .announced phase⟩
  | next phase more full =>
    exact ⟨some { size := s.blockSize, separation := s.separation },
      .spent phase more full rfl ⟨rfl, rfl⟩⟩

theorem AboutToWait.unheard (h : s.AboutToWait) : s.isAwaiting = false ∧ s.dueAt = none := by
  cases h with
  | first phase | next phase => simp [isAwaiting, dueAt, phase]

theorem AboutToWait.notePace (h : s.AboutToWait) (now : Micros) : (s.notePace now).AboutToWait := by
  cases h with
  | first phase => exact .first phase
  | next phase more full => exact .next phase more full

theorem expired?_of_start (ha : s.nAs.isRunning = false) (hb : s.nBs = .start now) :
    s.expired? now = none := by
  have hs : (Stopwatch.start now).exceeded now Timing.flowControlLimit = false :=
    Stopwatch.exceeded_start (Nat.le_add_right _ _)
  rw [expired?, Stopwatch.exceeded_of_stopped ha, hb, hs]
  rfl

theorem AboutToWait.hear (h : s.AboutToWait) (now : Micros) :
    (s.onAck now .success).isAwaiting = true ∧ (s.onAck now .success).result = s.result ∧
    (s.onAck now .success).expired? now = none := by
  cases h with
  | first phase =>
    have hack : s.onAck now .success =
        { s with
          nAs := s.nAs.stop now, nCs := .idle, nBs := .start now, phase := .awaitFirstFlow } := by
      simp only [onAck, phase]
    rw [hack]
    exact ⟨rfl, rfl, expired?_of_start rfl rfl⟩
  | next phase more full =>
    rw [onAck_block phase (Nat.not_le.mpr more) full]
    exact ⟨rfl, rfl, expired?_of_start rfl rfl⟩

theorem LetsGo.taken (h : s.LetsGo f) (ha : s.isAwaiting = true) (hr : s.result = none)
    (ht : s.expired? now = none) :
    s.step now (some f) = .rest ((s.notePace now).resume now (f.byte 1) (.ofByte (f.byte 2)))
      .inProgress := by
  have hawaits : (s.notePace now).isAwaiting = true := ha
  rw [step_timely hr ht, act_awaiting hawaits, takeFlowControl, if_pos h.form, h.status]

theorem LetsGo.begins_nothing (h : s.LetsGo f) :
    f.pduType? ≠ some .singleFrame ∧ f.pduType? ≠ some .firstFrame := by
  have hform := h.form
  have hkind : f.pduType? = some .flowControl := by
    simp only [isFlowControl, decide_eq_true_eq] at hform
    exact hform.2.2
  rw [hkind]
  exact ⟨by simp, by simp⟩

end Sender

namespace Bench
open Station

variable {base : Station} {id : EndpointId} {s : Sender} {f : Frame}
  {queue : List (EndpointId × Endpoint)} {inbox : List Frame} {notices : List Notice}
  {clock later : Micros}

theorem NodeRun.settle_unreported (base : Station) (id : EndpointId) (r : Endpoint)
    (queue : List (EndpointId × Endpoint)) :
    (settle.run answer ⟨⟨base.hosting (some (id, r)) true queue, inbox, [], notices⟩, clock, []⟩).2
      = ⟨⟨base.hosting (some (id, r)) true queue, inbox, [], notices⟩, clock, []⟩ := rfl

namespace NodeView

/-- A station whose conversation has a frame out. The controller has not reported the outcome. -/
def unreported (base : Station) (id : EndpointId) (r : Endpoint)
    (queue : List (EndpointId × Endpoint)) (inbox : List Frame) (notices : List Notice) :
    NodeView where
  station := base.hosting (some (id, r)) true queue
  inbox
  notices

def turnedDown (f : Frame) : Notice := .indication f.id [] (.error .unexpectedPdu) .diagnostics

/-- The peer of a running sender has answered a frame of which the sender has still to hear. -/
structure Answered (base : Station) (id : EndpointId) (s : Sender)
    (queue : List (EndpointId × Endpoint)) (f : Frame) (clock : Micros) : Prop where
  about : s.AboutToWait
  running : s.result = none
  timely : s.expired? clock = none
  answer : s.LetsGo f
  admitted : base.settings.admits f = true
  apart : s.address.reversed ≠ s.address
  rested : base.Rested clock
  numbered : ∀ p ∈ (id, .sender s) :: queue, p.1 < base.fresh
  fresh : id ∉ queue.map (·.1)
  same : ∀ p ∈ queue, p.2.address = s.address
  room : (footprints ((id, .sender s) :: queue) + labelBytes : Nat) ≤ base.budget.remaining
  capped : base.budget.remaining ≤ Budget.top

variable (h : Answered base id s queue f clock)
include h

/-- Read before the outcome is reported, the flow control opens a reception that comes to nothing.
-/
theorem Answered.tick_overtaken :
    (unreported base id (.sender s) queue [f] notices).run tickIfDue clock =
      (unreported (base.ticked clock).adopted id (.sender (s.notePace clock)) queue []
        (notices ++ [turnedDown f]), []) := by
  obtain ⟨last, hasks⟩ := h.about.asks
  have hwaits : (Endpoint.sender s).isAwaiting = false := h.about.unheard.1
  have hdue : (Endpoint.sender s).isDue clock = true := by
    simp [Endpoint.isDue, Endpoint.dueAt, h.about.unheard.2]
  have hp : ((base.ticked clock).hosting (some (id, .sender s)) true queue).startPending = _ :=
    startPending_busy h.same
  have hfootprint : (Endpoint.sender (s.notePace clock)).footprint =
      (Endpoint.sender s).footprint := rfl
  have hrests := Endpoint.sender_rest (hasks.rests h.running h.timely)
  have hsettled :
      (settle.run NodeRun.answer ⟨{ unreported base id (.sender s) queue [f] notices with
      station := (base.hosting (some (id, .sender s)) true queue).ticked clock }, clock, []⟩).2 =
      ⟨unreported (base.ticked clock) id (.sender s) queue [f] notices, clock, []⟩ :=
    NodeRun.settle_unreported (base.ticked clock) id (.sender s) queue
  have hturned := NodeRun.turnsDown (f := f)
    (d := ⟨⟨(base.ticked clock).hosting (some (id, .sender (s.notePace clock))) true queue, [],
      [], notices⟩, clock, []⟩)
    base.settings ?_ ?_ ?_ ?_ rfl ?_ h.answer.begins_nothing.1 h.answer.begins_nothing.2
  · apply (tick_settled (x := unreported base id (.sender s) queue [f] notices)
      h.rested hsettled).trans
    apply (congrArg (fun station => ({ station, inbox := [f], notices } : NodeView).run
      (attend base.settings) clock) hp).trans
    exact run_eq
      ((NodeRun.attend_pass_rest h.admitted hwaits hdue h.fresh hfootprint hrests).trans hturned)
  · intro p hp
    have hp : p ∈ (id, .sender (s.notePace clock)) :: queue := hp
    rcases List.mem_cons.mp hp with rfl | hp
    · exact h.numbered (id, .sender s) List.mem_cons_self
    · exact h.numbered p (List.mem_cons_of_mem _ hp)
  · have hother : f.id ≠ s.address := h.answer.id ▸ h.apart
    change List.lookup f.id [(s.address, _)] = none
    rw [List.lookup_cons, beq_eq_false_iff_ne.mpr hother]
    rfl
  · change (labelBytes : Int) ≤ base.budget.remaining - footprints ((id, .sender s) :: queue)
    have hroom := h.room
    omega
  · change base.budget.remaining - footprints ((id, .sender s) :: queue) ≤ Budget.top
    have hcapped := h.capped
    omega
  · intro e he
    rw [List.mem_singleton.mp he]
    exact fun he => h.apart (h.answer.id ▸ he.symm)

/-- Read with the outcome, it lets the next block go. -/
theorem Answered.tick_heard :
    (hosting base (some (id, .sender s)) true queue [f] notices).run tickIfDue clock =
      (hosting (base.ticked clock)
        (some (id, .sender (((s.onAck clock .success).notePace clock).resume clock (f.byte 1)
      (.ofByte (f.byte 2))))) false queue [] notices, []) := by
  obtain ⟨hwaits, hresult, htimely⟩ := h.about.hear clock
  have haddress : (s.onAck clock .success).address = s.address :=
    congrArg (·.1) (s.subject_onAck clock .success)
  have hanswer : (s.onAck clock .success).LetsGo f :=
    ⟨haddress ▸ h.answer.id, h.answer.form, h.answer.status⟩
  have ht : Takes base.settings clock id (.sender (s.onAck clock .success)) (some f) :=
    ⟨h.admitted, decide_eq_true hanswer.id, hwaits⟩
  apply (tick_conversation (r := .sender s) h.rested h.fresh h.same).trans
  exact attend_rest ht h.fresh rfl
    (Endpoint.sender_rest (hanswer.taken hwaits (hresult.trans h.running) htimely))

/-- The order of the two matters: where the sender would have gone on with the next block, it is
left waiting, and the application has been told of a reception that comes to nothing. -/
theorem Answered.flow_control_lost (later : Micros) : ∃ x y lost kept,
    (unreported base id (.sender s) queue [f] notices).run tickIfDue clock = (x, []) ∧
      x.notices = notices ++ [turnedDown f] ∧
      (({ x with outcomes := [.success] } : NodeView).run settle later).1.station.endpoint? id =
      some (.sender lost) ∧ lost.isAwaiting = true ∧
    (hosting base (some (id, .sender s)) true queue [f] notices).run tickIfDue clock = (y, []) ∧
    y.notices = notices ∧
      y.station.endpoint? id = some (.sender kept) ∧ kept.phase = .sendConsecutive ∧
      kept.blockSize = f.byte 1 ∧ kept.separation = .ofByte (f.byte 2) := by
  have hsettled : (settle.run NodeRun.answer
      ⟨hosting (base.ticked clock).adopted (some (id, .sender (s.notePace clock))) true queue []
        (notices ++ [turnedDown f]), later, []⟩).2 =
      ⟨hosting (base.ticked clock).adopted
        (some (id, .sender ((s.notePace clock).onAck later .success))) false queue []
        (notices ++ [turnedDown f]), later, []⟩ := NodeRun.settle_heard h.fresh
  have hlost := (h.about.notePace clock).hear later
  refine ⟨_, _, _, _, h.tick_overtaken, rfl, ?_, hlost.1, h.tick_heard, rfl, endpoint?_hosting, rfl,
    rfl, rfl⟩
  exact (congrArg (·.1.station.endpoint? id) (run_eq hsettled)).trans endpoint?_hosting

omit h

def announcing : Sender :=
  (((Sender.initial (.physical 0x10 0xF1) ((List.range 20).map UInt8.ofNat) .diagnostics none).step
    0 none).finish true 0).1

def goAhead : Frame := Pdu.flowControl (.physical 0xF1 0x10) .continueToSend 0 .zero

def origin : Station :=
  { settings := { source := 0xF1 }, budget := ⟨1000⟩, fresh := 1, lastTick := some 0 }

theorem answered_announcing : Answered origin 0 announcing [] goAhead 100000 where
  about := .first rfl
  running := rfl
  timely := rfl
  answer := ⟨rfl, rfl, rfl⟩
  admitted := rfl
  apart := by decide
  rested last hl := by
    obtain rfl : 0 = last := Option.some.inj hl
    decide
  numbered := by decide
  fresh := List.not_mem_nil
  same _ hp := absurd hp List.not_mem_nil
  room := by decide
  capped := by decide

theorem flow_control_lost_announcing :
    Answered origin 0 announcing [] goAhead 100000 ∧ ∃ x y lost kept,
      (unreported origin 0 (.sender announcing) [] [goAhead] []).run tickIfDue 100000 = (x, []) ∧
      x.notices = [] ++ [turnedDown goAhead] ∧
      (({ x with outcomes := [.success] } : NodeView).run settle 150000).1.station.endpoint? 0 =
      some (.sender lost) ∧ lost.isAwaiting = true ∧
    (hosting origin (some (0, .sender announcing)) true [] [goAhead] []).run tickIfDue 100000 =
    (y, []) ∧ y.notices = [] ∧
      y.station.endpoint? 0 = some (.sender kept) ∧ kept.phase = .sendConsecutive ∧
      kept.blockSize = goAhead.byte 1 ∧ kept.separation = .ofByte (goAhead.byte 2) :=
  ⟨answered_announcing, answered_announcing.flow_control_lost 150000⟩

/-- Flow control that comes too early is not kept. -/
theorem flow_control_not_kept :
    ¬ ∀ (base : Station) (id : EndpointId) (s : Sender) (f : Frame) (clock later : Micros),
      Answered base id s [] f clock → ∃ x kept, (unreported base id (.sender s) [] [f] []).run
      tickIfDue clock = (x, []) ∧ x.notices = [] ∧
      ({ x with outcomes := [.success] }.run settle later).1.station.endpoint? id =
      some (.sender kept) ∧ kept.phase = .sendConsecutive ∧ kept.blockSize = f.byte 1 ∧
      kept.separation = .ofByte (f.byte 2) := by
  intro hkept
  obtain ⟨x, kept, hx, hnotices, -⟩ := hkept _ _ _ _ _ 150000 answered_announcing
  have hx := (congrArg (·.1.notices) hx).symm.trans
      (congrArg (·.1.notices) answered_announcing.tick_overtaken)
  exact absurd (hnotices.symm.trans hx) nofun

end NodeView
end Bench
end CanTransport
