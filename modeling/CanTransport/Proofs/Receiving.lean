import CanTransport.Proofs.Opening
import CanTransport.Proofs.Waiting

/-! # What a reception announces and what it indicates

A long message is announced, a short one is not. The message that is indicated at the end is as long
as was announced, and it is empty if the reception has failed.
-/
namespace CanTransport.Receiver

variable {r r' : Receiver} {f : Frame} {now after : Micros} {frame : Option Frame} {budget : Budget}
  {outcome : StepOutcome} {accepted : Bool} {announced : Option Nat}

/-- How far a reception has come that has announced a message of that length, or none. -/
inductive Story (r : Receiver) : Option Nat → Prop
  | fresh (phase : r.phase = .fresh) (running : r.result = none) : Story r none
  | receiving (phase : r.phase = .sendFlow ∨ r.phase = .awaitFlowAck ∨ r.phase = .awaitConsecutive)
      (running : r.result = none)
    (long : Pdu.singleLimit < r.expected) : Story r (some r.expected)
  | short (phase : r.phase = .received) (latched : r.result = some (.ok ()))
      (whole : r.expected ≤ r.taken.length)
    (short : r.expected ≤ Pdu.singleLimit) : Story r none
  | long (phase : r.phase = .received) (latched : r.result = some (.ok ()))
      (whole : r.expected ≤ r.taken.length)
    (long : Pdu.singleLimit < r.expected) : Story r (some r.expected)
  | failed {announced : Option Nat} (phase : r.phase = .failed) {error : TransferError}
    (latched : r.result = some (.error error)) : Story r announced

/-- What is indicated fits what has been announced. -/
theorem Story.message (h : r.Story announced) :
    (r.result = some (.ok ()) → (announced.isSome = true ↔ Pdu.singleLimit < r.message.length) ∧
      ∀ length, announced = some length → length = r.message.length) ∧
    (r.result ≠ some (.ok ()) → r.message = []) := by
  refine ⟨fun hok => ?_, fun hne => ?_⟩
  · have hm : r.message = r.taken.take r.expected := by rw [Receiver.message, hok]
    cases h with
    | fresh _ running | receiving _ running => rw [running] at hok; cases hok
    | failed _ latched => rw [latched] at hok; cases hok
    | short _ _ whole short =>
      rw [hm, List.length_take_of_le whole]
      refine ⟨⟨fun hsome => absurd hsome Bool.false_ne_true, fun hl =>
        absurd hl (Nat.not_lt.mpr short)⟩, fun _ hsome => ?_⟩
      exact absurd hsome.symm (Option.some_ne_none _)
    | long _ _ whole long =>
      rw [hm, List.length_take_of_le whole]
      exact ⟨⟨fun _ => long, fun _ => rfl⟩, fun _ hl => (Option.some.inj hl).symm⟩
  · unfold Receiver.message
    split
    · next hok => exact absurd hok hne
    · rfl

theorem Story.unannounced (h : r.Story announced) (hp : r.phase = .fresh) : announced = none := by
  cases h with
  | fresh | short => rfl
  | receiving phase => simp [hp] at phase
  | long phase | failed phase => cases hp.symm.trans phase

theorem Story.known (h : r.Story announced)
    (hp : r.phase = .sendFlow ∨ r.phase = .awaitFlowAck ∨ r.phase = .awaitConsecutive) :
    r.result = none ∧ announced = some r.expected ∧ Pdu.singleLimit < r.expected := by
  cases h with
  | receiving phase running long => exact ⟨running, rfl, long⟩
  | fresh phase | short phase | long phase | failed phase => simp [phase] at hp

theorem Consumes.story (consumes : r.Consumes now f r') (hp : r.phase = .awaitConsecutive)
    (hr : r.result = none) (hl : Pdu.singleLimit < r.expected) : r'.Story (some r.expected) := by
  cases consumes with
  | unexpected | misplaced => exact .failed rfl rfl
  | last kind number whole => exact .long rfl rfl whole hl
  | block => exact .receiving (.inl rfl) hr hl
  | next => exact .receiving (.inr (.inr hp)) hr hl

/-- With its first frame a reception announces a long message or is over. -/
theorem step_fresh (hp : r.phase = .fresh) (hr : r.result = none)
    (h : (r.step now (some f) budget).1.finish accepted after = (r', outcome)) :
    (∃ length, outcome = .firstFrame length ∧ r'.Story (some length)) ∨
      r'.Story none ∧ ∃ result, outcome = .finished result ∧ r'.result = some result := by
  have does := r.step_does now (some f) budget
  generalize r.step now (some f) budget = move at does h
  cases does with
  | closed latched => cases hr.symm.trans latched
  | expires | fails | rejects =>
    cases h
    exact .inr ⟨.failed rfl rfl, _, rfl, rfl⟩
  | single running timely phase input kind short carried =>
    cases h
    exact .inr ⟨.short rfl rfl (Nat.le_of_eq (length_whole (r.noteReply now) carried).symm) short,
      _, rfl, rfl⟩
  | first running timely phase input kind physical full announced long =>
    cases h
    exact .inl ⟨_, rfl, .receiving (.inl rfl) running long⟩
  | offers _ _ phase | holds _ _ phase | consumes _ _ phase => cases hp.symm.trans phase
  | waits _ _ _ input => cases input
  | stuck _ _ ended => simp [hp] at ended

theorem frame_announced {length : Nat}
    (h : ((r.step now frame budget).1.finish accepted after).2 = .firstFrame length) :
    (r.step now frame budget).1.frame? = none := by
  have does := r.step_does now frame budget
  generalize r.step now frame budget = move at does h ⊢
  cases does with
  | offers => cases accepted <;> cases h
  | rejects => cases h
  | closed | expires | fails | single | first | holds | consumes | waits | stuck => rfl

theorem Does.story {move : Move Receiver × Budget} (does : r.Does now frame budget move)
    (hs : r.Story announced) (h : move.1.finish accepted after = (r', outcome)) :
    (∃ length, announced = none ∧ outcome = .firstFrame length ∧ r'.Story (some length)) ∨
      (∀ length, outcome ≠ .firstFrame length) ∧ r'.Story announced := by
  cases does with
  | closed =>
    cases h
    exact .inr ⟨nofun, hs⟩
  | expires | fails | rejects =>
    cases h
    exact .inr ⟨nofun, .failed rfl rfl⟩
  | single running timely phase input kind short carried =>
    cases h
    obtain rfl := hs.unannounced phase
    exact .inr ⟨nofun, .short rfl rfl (Nat.le_of_eq (length_whole (r.noteReply now) carried).symm)
      short⟩
  | first running timely phase input kind physical full announced long =>
    cases h
    exact .inl ⟨_, hs.unannounced phase, rfl, .receiving (.inl rfl) running long⟩
  | offers running timely phase =>
    obtain ⟨-, rfl, hl⟩ := hs.known (.inl phase)
    cases accepted with
    | true =>
      cases h
      exact .inr ⟨nofun, .receiving (.inr (.inl rfl)) running hl⟩
    | false =>
      cases h
      exact .inr ⟨nofun, .receiving (.inl phase) running hl⟩
  | holds running timely phase =>
    obtain ⟨-, rfl, hl⟩ := hs.known (.inr (.inl phase))
    cases h
    exact .inr ⟨nofun, .receiving (.inr (.inl phase)) running hl⟩
  | consumes running timely phase =>
    obtain ⟨-, rfl, hl⟩ := hs.known (.inr (.inr phase))
    cases h
    refine .inr ⟨fun length => ?_, ((r.noteReply now).consume_consumes now _).story phase running
      hl⟩
    unfold Receiver.outcome
    split <;> exact nofun
  | waits running timely phase =>
    obtain ⟨-, rfl, hl⟩ := hs.known (.inr phase)
    cases h
    exact .inr ⟨nofun, .receiving (.inr phase) running hl⟩
  | stuck running timely ended =>
    cases hs with
    | fresh phase => simp [phase] at ended
    | receiving phase => rcases ended with ended | ended <;> simp [ended] at phase
    | short _ latched | long _ latched | failed _ latched => cases running.symm.trans latched

/-- A step announces a message only if nothing has been announced before. -/
theorem step_story (hs : r.Story announced)
    (h : (r.step now frame budget).1.finish accepted after = (r', outcome)) :
    (∃ length, announced = none ∧ outcome = .firstFrame length ∧ r'.Story (some length)) ∨
      (∀ length, outcome ≠ .firstFrame length) ∧ r'.Story announced :=
  (r.step_does now frame budget).story hs h

theorem onAck_story (hs : r.Story announced) (ack : Ack) : (r.onAck now ack).Story announced := by
  have learns := r.onAck_learns now ack
  generalize r.onAck now ack = r' at learns ⊢
  cases learns with
  | closed | unasked => exact hs
  | fails => exact .failed rfl rfl
  | confirmed phase =>
    obtain ⟨hr, rfl, hl⟩ := hs.known (.inr (.inl phase))
    exact .receiving (.inr (.inr rfl)) hr hl
  | replays phase =>
    obtain ⟨hr, rfl, hl⟩ := hs.known (.inr (.inl phase))
    exact ((r.confirmed now).consume_consumes now _).story rfl hr hl

theorem story_initial (address : Address) (blockSize : UInt8) (separation : SeparationTime) :
    (initial address blockSize separation).Story none := .fresh rfl rfl

end CanTransport.Receiver
