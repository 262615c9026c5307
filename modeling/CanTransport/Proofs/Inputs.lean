import CanTransport.Proofs.Keeping
import CanTransport.Proofs.Moves

/-! # An endpoint in any surroundings

An endpoint is given turns, with a frame or without, outcomes and new settings, in any order and at
any readings of the clock. Each turn finds some budget, and the frame that it offers is taken or
refused. Whatever an endpoint has been through, it is either running without a result, or at its end
with a result and all watches stopped.
-/
namespace CanTransport

/-- A turn reads the clock before and after a frame is offered, which is `accepted` or refused. -/
inductive Endpoint.Input
  | turn (now after : Micros) (frame : Option Frame) (budget : Budget) (accepted : Bool)
  | outcome (now : Micros) (ack : Ack)
  | blockSize (value : UInt8)
  | separation (value : SeparationTime)

def Sender.react (s : Sender) : Endpoint.Input → Sender
  | .turn now after frame _ accepted => ((s.step now frame).finish accepted after).1
  | .outcome now ack => s.onAck now ack
  | .blockSize _ | .separation _ => s

def Receiver.react (r : Receiver) : Endpoint.Input → Receiver
  | .turn now after frame budget accepted => ((r.step now frame budget).1.finish accepted after).1
  | .outcome now ack => r.onAck now ack
  | .blockSize value => r.setBlockSize value
  | .separation value => r.setSeparation value

def Receiver.run (r : Receiver) (inputs : List Endpoint.Input) : Receiver := inputs.foldl react r

namespace Endpoint
variable {Q : Endpoint → Prop} {r : Endpoint}

def react (r : Endpoint) : Input → Endpoint
  | .turn now after frame budget accepted => ((r.step now frame budget).1.finish accepted after).1
  | .outcome now ack => r.onAck now ack
  | .blockSize value => r.setBlockSize value
  | .separation value => r.setSeparation value

def run (r : Endpoint) (inputs : List Input) : Endpoint := inputs.foldl react r

/-- The endpoints that there can be. -/
inductive Arises : Endpoint → Prop
  | sender {address : Address} {message : List UInt8} {kind : MessageType}
      {waitLimit : Option UInt8} {budget rest : Budget} {s : Sender}
      (created : Sender.create address message kind waitLimit budget = .ok (s, rest)) :
      Arises (.sender s)
  | receiver {address : Address} {blockSize : UInt8} {separation : SeparationTime}
      {budget rest : Budget} {r : Receiver}
      (created : Receiver.create address blockSize separation budget = .ok (r, rest)) :
      Arises (.receiver r)
  | next {r : Endpoint} (earlier : Arises r) (input : Input) : Arises (r.react input)

theorem Arises.run (h : Arises r) (inputs : List Input) : Arises (r.run inputs) := by
  induction inputs generalizing r with
  | nil => exact h
  | cons input _ ih => exact ih (h.next input)

theorem Kept.react (hq : Kept Q) (hr : Q r) (input : Input) : Q (r.react input) := by
  cases input with
  | turn now after frame budget accepted => exact hq.step now after frame budget accepted hr
  | outcome now ack => exact hq.onAck now ack hr
  | blockSize value => exact hq.setter (.blockSize value) hr
  | separation value => exact hq.setter (.separation value) hr

theorem Kept.arises (hq : Kept Q) (h : Arises r) : Q r := by
  induction h with
  | sender created => exact hq.sender created
  | receiver created =>
    obtain ⟨rfl, -⟩ := Receiver.create_ok created
    exact hq.receiver _ _ _
  | next _ input ih => exact hq.react ih input

theorem react_sender (s : Sender) (input : Input) :
    (sender s).react input = .sender (s.react input) := by
  cases input with
  | turn now after frame budget accepted => exact finish_map sender _ accepted after
  | outcome | blockSize | separation => rfl

theorem react_receiver (r : Receiver) (input : Input) :
    (receiver r).react input = .receiver (r.react input) := by
  cases input with
  | turn now after frame budget accepted => exact finish_map receiver _ accepted after
  | outcome | blockSize | separation => rfl

theorem run_receiver (r : Receiver) (inputs : List Input) :
    (receiver r).run inputs = .receiver (r.run inputs) := by
  induction inputs generalizing r with
  | nil => rfl
  | cons input inputs ih =>
    rw [run, List.foldl_cons, react_receiver]
    exact ih (r.react input)

def firstOfTwo : Frame where
  id := .physical 0x10 0xF1
  data := [0x10, 10, 0, 1, 2, 3, 4, 5]
  dlc := 8
  extended := true
  remote := false

def secondOfTwo : Frame where
  id := .physical 0x10 0xF1
  data := [0x21, 6, 7, 8, 9, 0, 0, 0]
  dlc := 5
  extended := true
  remote := false

def heldBack : List Input :=
  [.turn 0 0 (some firstOfTwo) ⟨100⟩ true, .turn 5 5 none ⟨90⟩ true, .turn 6 6 (some secondOfTwo)
    ⟨90⟩ true, .outcome 7 .success]

end Endpoint

namespace Sender
variable {s : Sender} {now after : Micros} {frame : Option Frame} {move : Move Sender}
  {accepted : Bool}

structure Still (s : Sender) : Prop where
  nAs : s.nAs.isRunning = false
  nBs : s.nBs.isRunning = false
  nCs : s.nCs.isRunning = false

/-- The result is there at the end and not before, and at the end no watch is running. -/
def Tidy (s : Sender) : Prop :=
  match s.phase with
  | .sent => s.result = some (.ok ()) ∧ s.Still
  | .failed => (∃ error, s.result = some (.error error)) ∧ s.Still
  | _ => s.result = none

theorem still_finish (s : Sender) (now : Micros) (result : TransferResult) :
    (s.finish now result).Still := ⟨rfl, rfl, rfl⟩

theorem tidy_finish (s : Sender) (now : Micros) (result : TransferResult) :
    (s.finish now result).Tidy := by
  cases result with
  | ok => exact ⟨rfl, still_finish s now _⟩
  | error error => exact ⟨⟨error, rfl⟩, still_finish s now _⟩

theorem tidy_fail (s : Sender) (now : Micros) (error : TransferError) :
    ((s.fail now error).finish accepted after).1.Tidy :=
  tidy_finish s now (.error error)

theorem tidy_running (hr : s.result = none) (hp : s.phase ≠ .sent ∧ s.phase ≠ .failed) :
    s.Tidy := by
  unfold Tidy
  split
  · next phase => exact absurd phase hp.1
  · next phase => exact absurd phase hp.2
  · exact hr

theorem tidy_initial (address : Address) (message : List UInt8) (kind : MessageType)
    (waitLimit : Option UInt8) :
    (initial address message kind waitLimit).Tidy := by
  refine tidy_running rfl ?_
  rcases phase_initial address message kind waitLimit with hp | hp <;> simp [hp]

theorem Tidy.running (h : s.Tidy) (hp : s.phase ≠ .sent ∧ s.phase ≠ .failed) : s.result = none := by
  unfold Tidy at h
  split at h
  · next phase => exact absurd phase hp.1
  · next phase => exact absurd phase hp.2
  · exact h

theorem Tidy.ended (h : s.Tidy) {result : TransferResult} (hr : s.result = some result) :
    s.Still ∧ (s.phase = .sent ∨ s.phase = .failed) := by
  unfold Tidy at h
  split at h
  · next hp => exact ⟨h.2, .inl hp⟩
  · next hp => exact ⟨h.2, .inr hp⟩
  · cases h.symm.trans hr

theorem Tidy.open_ (h : s.Tidy) (hr : s.result = none) : s.phase ≠ .sent ∧ s.phase ≠ .failed := by
  refine ⟨fun hp => ?_, fun hp => ?_⟩
  · rw [Tidy, hp] at h
    cases h.1.symm.trans hr
  · rw [Tidy, hp] at h
    obtain ⟨error, he⟩ := h.1
    cases he.symm.trans hr

theorem Does.tidy (h : s.Does now frame move) (hs : s.Tidy) :
    (move.finish accepted after).1.Tidy := by
  cases h with
  | closed => exact hs
  | expires | fails | overruns => exact tidy_fail _ now _
  | offers hr ht due sends =>
    cases accepted with
    | false => exact tidy_running hr (hs.open_ hr)
    | true => cases sends <;> exact hr
  | pauses hr | waits hr => exact tidy_running hr (hs.open_ hr)
  | resumes input heard | postpones heard => exact (running_of_hears heard).1
  | stuck hr ht ended => exact absurd ended (not_or.mpr (hs.open_ hr))

theorem Learns.tidy {ack : Ack} {s' : Sender} (h : s.Learns now ack s') (hs : s.Tidy) :
    s'.Tidy := by
  have running {p : SenderPhase} (hp : s.phase = p) (hne : p ≠ .sent ∧ p ≠ .failed) :
      s.result = none :=
    hs.running (hp ▸ hne)
  cases h with
  | closed => exact hs
  | fails | single | last => exact tidy_finish _ _ _
  | first hp | block hp | next hp => exact running hp (by decide)

end Sender

namespace Receiver
variable {r : Receiver} {now after : Micros} {frame : Option Frame} {budget : Budget}
  {move : Move Receiver × Budget} {accepted : Bool}

structure Still (r : Receiver) : Prop where
  nAr : r.nAr.isRunning = false
  nBr : r.nBr.isRunning = false
  nCr : r.nCr.isRunning = false

/-- The result is there at the end and not before, and at the end no watch is running. Nothing but
the own flow control is waited for before it is confirmed, and no frame is held at any other time.
-/
def Tidy (r : Receiver) : Prop :=
  match r.phase with
  | .received => r.result = some (.ok ()) ∧ r.Still
  | .failed => (∃ error, r.result = some (.error error)) ∧ r.Still
  | .fresh | .sendFlow => r.result = none ∧ r.nCr.isRunning = false
  | .awaitFlowAck => r.result = none ∧ r.nBr.isRunning = false ∧ r.nCr.isRunning = false
  | .awaitConsecutive => r.result = none

theorem still_finish (r : Receiver) (now : Micros) (result : TransferResult) :
    (r.finish now result).Still := ⟨rfl, rfl, rfl⟩

theorem tidy_finish (r : Receiver) (now : Micros) (result : TransferResult) :
    (r.finish now result).Tidy := by
  cases result with
  | ok => exact ⟨rfl, still_finish r now _⟩
  | error error => exact ⟨⟨error, rfl⟩, still_finish r now _⟩

theorem Tidy.running (h : r.Tidy) (hp : r.phase ≠ .received ∧ r.phase ≠ .failed) :
    r.result = none := by
  unfold Tidy at h
  split at h
  · next phase => exact absurd phase hp.1
  · next phase => exact absurd phase hp.2
  · exact h.1
  · exact h.1
  · exact h.1
  · exact h

theorem Tidy.ended (h : r.Tidy) {result : TransferResult} (hr : r.result = some result) :
    r.Still ∧ (r.phase = .received ∨ r.phase = .failed) := by
  unfold Tidy at h
  split at h
  · next hp => exact ⟨h.2, .inl hp⟩
  · next hp => exact ⟨h.2, .inr hp⟩
  · cases h.1.symm.trans hr
  · cases h.1.symm.trans hr
  · cases h.1.symm.trans hr
  · cases h.symm.trans hr

theorem Tidy.open_ (h : r.Tidy) (hr : r.result = none) :
    r.phase ≠ .received ∧ r.phase ≠ .failed := by
  refine ⟨fun hp => ?_, fun hp => ?_⟩
  · rw [Tidy, hp] at h
    cases h.1.symm.trans hr
  · rw [Tidy, hp] at h
    obtain ⟨error, he⟩ := h.1
    cases he.symm.trans hr

theorem Tidy.congr {r' : Receiver} (h : r.Tidy) (hp : r'.phase = r.phase)
    (hr : r'.result = r.result) (ha : r'.nAr = r.nAr) (hb : r'.nBr = r.nBr) (hc : r'.nCr = r.nCr) :
    r'.Tidy := by
  unfold Tidy at h ⊢
  rw [hp, hr, hb, hc]
  cases phase : r.phase with
  | received | failed =>
    rw [phase] at h
    exact ⟨h.1, ha ▸ h.2.nAr, hb ▸ h.2.nBr, hc ▸ h.2.nCr⟩
  | fresh | sendFlow | awaitFlowAck | awaitConsecutive =>
    rw [phase] at h
    exact h

theorem Consumes.tidy {f : Frame} {r' : Receiver} (h : r.Consumes now f r')
    (hp : r.phase = .awaitConsecutive) (hr : r.result = none) : r'.Tidy := by
  cases h with
  | unexpected | misplaced | last => exact tidy_finish _ _ _
  | block => exact ⟨hr, rfl⟩
  | next =>
    have hp : { r.absorbed f with nCr := .start now }.phase = .awaitConsecutive := hp
    rw [Tidy, hp]
    exact hr

theorem Does.tidy (h : r.Does now frame budget move) (hr : r.Tidy) :
    (move.1.finish accepted after).1.Tidy := by
  cases h with
  | closed => exact hr
  | expires => exact tidy_finish r now (.error _)
  | fails => exact tidy_finish (r.noteReply now) now (.error _)
  | rejects => exact tidy_finish (r.noteReply now) now (.error _)
  | single => exact tidy_finish ((r.noteReply now).whole _) now (.ok ())
  | first running timely phase =>
    rw [Tidy, phase] at hr
    exact ⟨running, hr.2⟩
  | offers running timely phase =>
    rw [Tidy, phase] at hr
    cases accepted with
    | true => exact ⟨running, rfl, hr.2⟩
    | false =>
      unfold Tidy
      split <;> simp_all [sendFlow, noteReply]
  | holds | waits => exact hr.congr rfl rfl rfl rfl rfl
  | consumes running timely phase => exact (consume_consumes _ now _).tidy phase running
  | stuck running timely ended => exact absurd ended (not_or.mpr (hr.open_ running))

theorem Learns.tidy {ack : Ack} {r' : Receiver} (h : r.Learns now ack r') (hr : r.Tidy) :
    r'.Tidy := by
  cases h with
  | closed | unasked => exact hr
  | fails => exact tidy_finish _ _ _
  | confirmed phase => exact hr.running (by simp [phase])
  | replays phase => exact (consume_consumes _ now _).tidy rfl (hr.running (by simp [phase]))

end Receiver

namespace Endpoint

/-- What is over does not move any more. -/
theorem step_latched {r : Endpoint} {result : TransferResult} (h : r.result = some result)
    (now : Micros) (frame : Option Frame) (budget : Budget) :
    r.step now frame budget = (.rest r (.finished result), budget) := by
  cases r with
  | sender s =>
    have h : s.result = some result := h
    simp only [step, Sender.step, h, Move.map]
  | receiver q =>
    have h : q.result = some result := h
    simp only [step, Receiver.step, h, Move.map]

def Tidy : Endpoint → Prop
  | sender s => s.Tidy
  | receiver r => r.Tidy

theorem kept_tidy : Kept Tidy where
  sender {address message kind waitLimit budget rest s} h := by
    obtain rfl := Sender.create_ok h
    exact Sender.tidy_initial address message kind waitLimit
  receiver _ _ _ := ⟨rfl, rfl⟩
  step {r} now after frame budget accepted hr := by
    cases r with
    | sender s =>
      rw [step, finish_map]
      exact (s.step_does now frame).tidy hr
    | receiver r =>
      simp only [step, finish_map]
      exact (r.step_does now frame budget).tidy hr
  onAck {r} now ack hr := by
    cases r with
    | sender s => exact (s.onAck_learns now ack).tidy hr
    | receiver r => exact (r.onAck_learns now ack).tidy hr
  setter {r change} setter hr := by
    cases setter <;> cases r with
    | sender s => exact hr
    | receiver r => exact Receiver.Tidy.congr hr rfl rfl rfl rfl rfl

end Endpoint
end CanTransport
