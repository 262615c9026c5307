import CanTransport.Proofs.Inputs

/-! # What the soft limits do

A soft limit that is past is noted, and that is all. Endpoints that differ in nothing but the
watches of their soft limits and the notes made of them go through the same phases, with the same
results, whatever is done to them.
-/
namespace CanTransport

/-- Where two runs come to the same test, they are compared branch by branch. -/
theorem apply_ite_eq {α β : Type} (f : α → β) {c : Prop} [Decidable c] {a a' b b' : α}
    (ha : f a = f a') (hb : f b = f b') :
    f (if c then a else b) = f (if c then a' else b') := by
  split
  · exact ha
  · exact hb

namespace Sender
variable {s : Sender} {now after : Micros} {frame : Option Frame} {accepted : Bool}

def unhurried (s : Sender) : Sender := { s with nCs := .idle, paceNoted := false }

section Fields
variable (s : Sender) (now : Micros)

@[simp] theorem phase_unhurried : s.unhurried.phase = s.phase := rfl

@[simp] theorem result_unhurried : s.unhurried.result = s.result := rfl

@[simp] theorem address_unhurried : s.unhurried.address = s.address := rfl

@[simp] theorem message_unhurried : s.unhurried.message = s.message := rfl

@[simp] theorem sequence_unhurried : s.unhurried.sequence = s.sequence := rfl

@[simp] theorem chunk_unhurried : s.unhurried.chunk = s.chunk := rfl

@[simp] theorem expired?_unhurried : s.unhurried.expired? now = s.expired? now := rfl

end Fields

theorem unhurried_transmit {f : Frame} {accept : Sender → Micros → Sender}
    (h : ∀ s after, (accept s.unhurried after).unhurried = (accept s after).unhurried) :
    ((s.unhurried.transmit now f accept).finish accepted after).1.unhurried =
      ((s.transmit now f accept).finish accepted after).1.unhurried := by
  cases accepted with
  | true => exact h { s with nAs := s.nAs.ensure now } after
  | false => rfl

def lands (accepted : Bool) (after : Micros) (move : Move Sender) : Sender :=
  (move.finish accepted after).1.unhurried

theorem unhurried_takeFlowControl (f : Frame) :
    ((s.unhurried.takeFlowControl now f).finish accepted after).1.unhurried =
      ((s.takeFlowControl now f).finish accepted after).1.unhurried := by
  unfold takeFlowControl
  split
  · split
    · rfl
    · unfold postpone
      dsimp only [unhurried]
      split <;> rfl
    · rfl
    · rfl
  · rfl

theorem unhurried_act :
    ((s.unhurried.act now frame).finish accepted after).1.unhurried =
      ((s.act now frame).finish accepted after).1.unhurried := by
  cases hp : s.phase with
  | sendSingle =>
    simp only [act, phase_unhurried, hp, sendSingle, address_unhurried, message_unhurried]
    split
    · rfl
    · exact unhurried_transmit fun _ _ => rfl
  | sendFirst =>
    simp only [act, phase_unhurried, hp, sendFirst, address_unhurried, message_unhurried]
    split
    · rfl
    · exact unhurried_transmit fun _ _ => rfl
  | sendConsecutive =>
    simp only [act, phase_unhurried, hp]
    refine apply_ite_eq (lands accepted after) rfl ?_
    simp only [address_unhurried, sequence_unhurried, chunk_unhurried]
    split
    · rfl
    · exact unhurried_transmit fun _ _ => rfl
  | awaitFirstFlow | awaitFlow =>
    cases frame with
    | none => simp only [act, phase_unhurried, hp, Move.finish_rest]; rfl
    | some f =>
      simp only [act, phase_unhurried, hp]
      exact unhurried_takeFlowControl f
  | awaitSingleAck | awaitFirstAck | awaitConsecutiveAck | sent | failed =>
    simp only [act, phase_unhurried, hp]
    rfl

theorem unhurried_step :
    ((s.unhurried.step now frame).finish accepted after).1.unhurried =
      ((s.step now frame).finish accepted after).1.unhurried := by
  unfold step
  rw [result_unhurried, expired?_unhurried]
  split
  · rfl
  · split
    · rfl
    · -- what a note makes of either sender is the same sender without its soft limit
      have noted : (s.unhurried.notePace now).unhurried = (s.notePace now).unhurried := rfl
      rw [← unhurried_act, noted, unhurried_act]

theorem unhurried_onAck (ack : Ack) :
    (s.unhurried.onAck now ack).unhurried = (s.onAck now ack).unhurried := by
  cases hp : s.phase with
  | awaitConsecutiveAck =>
    cases ack with
    | success =>
      simp only [onAck, phase_unhurried, hp]
      exact apply_ite_eq unhurried rfl (apply_ite_eq unhurried rfl rfl)
    | failure =>
      simp only [onAck, phase_unhurried, hp]
      rfl
  | _ =>
    cases ack <;>
    · simp only [onAck, phase_unhurried, hp]
      rfl

theorem unhurried_react (input : Endpoint.Input) :
    (s.unhurried.react input).unhurried = (s.react input).unhurried := by
  cases input with
  | turn => exact unhurried_step
  | outcome now ack => exact unhurried_onAck ack
  | blockSize | separation => rfl

end Sender

namespace Receiver
variable {r : Receiver} {now after : Micros} {frame : Option Frame}
  {budget : Budget} {accepted : Bool}

def unhurried (r : Receiver) : Receiver := { r with nBr := .idle, replyNoted := false }

section Fields
variable (r : Receiver) (now : Micros)

@[simp] theorem phase_unhurried : r.unhurried.phase = r.phase := rfl

@[simp] theorem result_unhurried : r.unhurried.result = r.result := rfl

@[simp] theorem expired?_unhurried : r.unhurried.expired? now = r.expired? now := rfl

end Fields

theorem unhurried_consume (f : Frame) :
    (r.unhurried.consume now f).unhurried = (r.consume now f).unhurried := by
  unfold consume
  refine apply_ite_eq unhurried rfl
    (apply_ite_eq unhurried rfl (apply_ite_eq unhurried rfl (apply_ite_eq unhurried rfl rfl)))

def lands (accepted : Bool) (after : Micros) (move : Move Receiver × Budget) : Receiver :=
  (move.1.finish accepted after).1.unhurried

theorem lands_takeSingle (f : Frame) :
    lands accepted after (r.unhurried.takeSingle now f budget) =
      lands accepted after (r.takeSingle now f budget) := by
  unfold takeSingle
  refine apply_ite_eq (lands accepted after) rfl ?_
  split <;> rfl

theorem lands_takeFirst (f : Frame) :
    lands accepted after (r.unhurried.takeFirst now f budget) =
      lands accepted after (r.takeFirst now f budget) := by
  unfold takeFirst
  refine apply_ite_eq (lands accepted after) rfl ?_
  split
  · rfl
  · refine apply_ite_eq (lands accepted after) rfl ?_
    split <;> rfl

theorem lands_openWith (f : Frame) :
    lands accepted after (r.unhurried.openWith now f budget) =
      lands accepted after (r.openWith now f budget) := by
  unfold openWith
  split
  · exact lands_takeSingle f
  · exact lands_takeFirst f
  · rfl

theorem unhurried_act :
    ((r.unhurried.act now frame budget).1.finish accepted after).1.unhurried =
      ((r.act now frame budget).1.finish accepted after).1.unhurried := by
  cases hp : r.phase with
  | fresh =>
    cases frame with
    | none => simp only [act, phase_unhurried, hp]; rfl
    | some f =>
      simp only [act, phase_unhurried, hp]
      exact lands_openWith f
  | sendFlow =>
    simp only [act, phase_unhurried, hp]
    cases accepted <;> rfl
  | awaitFlowAck => cases frame <;> simp only [act, phase_unhurried, hp] <;> rfl
  | awaitConsecutive =>
    cases frame with
    | none => simp only [act, phase_unhurried, hp]; rfl
    | some f =>
      simp only [act, phase_unhurried, hp]
      exact unhurried_consume f
  | received | failed =>
    simp only [act, phase_unhurried, hp]
    rfl

theorem unhurried_step :
    ((r.unhurried.step now frame budget).1.finish accepted after).1.unhurried =
      ((r.step now frame budget).1.finish accepted after).1.unhurried := by
  unfold step
  rw [result_unhurried, expired?_unhurried]
  split
  · rfl
  · split
    · rfl
    · have noted : (r.unhurried.noteReply now).unhurried = (r.noteReply now).unhurried := rfl
      rw [← unhurried_act, noted, unhurried_act]

theorem unhurried_onAck (ack : Ack) :
    (r.unhurried.onAck now ack).unhurried = (r.onAck now ack).unhurried := by
  cases hp : r.phase with
  | awaitFlowAck =>
    cases ack with
    | success =>
      simp only [onAck, phase_unhurried, hp]
      have confirmed : (r.unhurried.confirmed now).unhurried = (r.confirmed now).unhurried := rfl
      have held : r.unhurried.held = r.held := rfl
      rw [held]
      split
      · next f _ =>
        calc ((r.unhurried.confirmed now).consume now f).unhurried
            = ((r.unhurried.confirmed now).unhurried.consume now f).unhurried :=
            (unhurried_consume f).symm
          _ = ((r.confirmed now).unhurried.consume now f).unhurried := by rw [confirmed]
          _ = ((r.confirmed now).consume now f).unhurried := unhurried_consume f
      · rfl
    | failure =>
      simp only [onAck, phase_unhurried, hp]
      rfl
  | _ =>
    cases ack <;>
    · simp only [onAck, phase_unhurried, hp]
      rfl

theorem unhurried_react (input : Endpoint.Input) :
    (r.unhurried.react input).unhurried = (r.react input).unhurried := by
  cases input with
  | turn => exact unhurried_step
  | outcome now ack => exact unhurried_onAck ack
  | blockSize | separation => rfl

end Receiver

namespace Endpoint
variable {r r' : Endpoint}

def unhurried : Endpoint → Endpoint
  | sender s => .sender s.unhurried
  | receiver r => .receiver r.unhurried

theorem unhurried_react (input : Input) :
    (r.unhurried.react input).unhurried = (r.react input).unhurried := by
  cases r with
  | sender s =>
    rw [unhurried, react_sender, react_sender]
    exact congrArg sender (Sender.unhurried_react input)
  | receiver r =>
    rw [unhurried, react_receiver, react_receiver]
    exact congrArg receiver (Receiver.unhurried_react input)

/-- Endpoints that differ in nothing but their soft limits do so for ever. -/
theorem unhurried_run (h : r.unhurried = r'.unhurried) (inputs : List Input) :
    (r.run inputs).unhurried = (r'.run inputs).unhurried := by
  induction inputs generalizing r r' with
  | nil => exact h
  | cons input inputs ih => exact ih (by rw [← unhurried_react, h, unhurried_react])

end Endpoint
end CanTransport
