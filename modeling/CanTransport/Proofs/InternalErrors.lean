import CanTransport.Proofs.Inputs

/-! # Where an internal error comes from

What a sender has to send can be encoded, so no step of a sender fails for itself. An endpoint ends
with an internal error when it is told that its frame has failed, and a receiver also when its first
step is made without a frame.
-/
namespace CanTransport

namespace Sender
variable {s next : Sender} {now after : Micros} {frame : Option Frame} {outcome : StepOutcome}

def Sendable (s : Sender) : Prop :=
  (s.phase = .sendSingle → s.message.length ≤ Pdu.singleLimit) ∧
    (s.phase = .sendFirst → Pdu.singleLimit < s.message.length ∧ s.message.length < Pdu.lengthLimit)

theorem sendable_of_phase (h : s.phase ≠ .sendSingle ∧ s.phase ≠ .sendFirst) : s.Sendable :=
  ⟨fun hp => absurd hp h.1, fun hp => absurd hp h.2⟩

theorem Sendable.congr (h : s.Sendable) (hp : next.phase = s.phase)
    (hm : next.message = s.message) : next.Sendable := by
  rw [Sendable, hp, hm]
  exact h

theorem Does.sendable {move : Move Sender} {accepted : Bool} (does : s.Does now frame move)
    (h : s.Sendable) :
    (move.finish accepted after).1.Sendable := by
  cases does with
  | closed | pauses | waits | stuck => exact h.congr rfl rfl
  | expires | fails | overruns | resumes | postpones => exact sendable_of_phase ⟨nofun, nofun⟩
  | offers running timely due sends =>
    cases accepted with
    | false => exact h.congr rfl rfl
    | true => cases sends <;> exact sendable_of_phase ⟨nofun, nofun⟩

theorem Learns.sendable {ack : Ack} (learns : s.Learns now ack next) (h : s.Sendable) :
    next.Sendable := by
  cases learns with
  | closed => exact h
  | fails | single | first | last | block | next => exact sendable_of_phase ⟨nofun, nofun⟩

/-- A phase that sends has a frame to send, or makes a pause. -/
theorem Sendable.act_ne (h : s.Sendable) (sends : s.phase = .sendSingle ∨ s.phase = .sendFirst ∨
    s.phase = .sendConsecutive) :
    s.act now frame ≠ s.fail now .internal := by
  unfold act
  rcases sends with hp | hp | hp
  · obtain ⟨f, hf, -⟩ := Pdu.singleFrame?_spec s.address (h.1 hp)
    rw [hp]
    dsimp only
    rw [sendSingle_eq hf]
    exact nofun
  · obtain ⟨f, hf, -⟩ := Pdu.firstFrame?_spec s.address (h.2 hp).1 (h.2 hp).2
    rw [hp]
    dsimp only
    rw [sendFirst_eq hf]
    exact nofun
  · obtain ⟨f, hf, -⟩ :=
      Pdu.consecutiveFrame?_spec s.address s.sequence s.chunk (List.length_take_le _ _)
    rw [hp]
    dsimp only
    unfold sendConsecutive
    split
    · intro heq
      injection heq with _ houtcome
      cases houtcome
    · rw [hf]
      exact nofun

theorem step_not_internal (h : s.Sendable) (running : s.result = none)
    (hm : s.step now frame = .rest next outcome) :
    next.result ≠ some (.error .internal) := by
  have same : s.result ≠ some (.error .internal) := by simp [running]
  have does := s.step_does now frame
  rw [hm] at does
  cases does with
  | closed | pauses | waits | resumes | postpones | stuck => exact same
  | expires _ expired =>
    rintro ⟨⟩
    exact absurd (timeout_of_expired? expired) (by decide)
  | overruns => rintro ⟨⟩
  | fails _ timely reason =>
    cases reason with
    | unsendable sends =>
      rw [step, running, timely] at hm
      exact absurd hm (Sendable.act_ne (s := s.notePace now) (h.congr rfl rfl) sends)
    | unexpected | invalid => rintro ⟨⟩
    | overflow =>
      change some (Except.error (if s.phase = .awaitFirstFlow then TransferError.bufferOverflow else
        .invalidFlowStatus)) ≠ _
      split <;> rintro ⟨⟩

theorem write_not_internal {f : Frame} {nextStep : Bool → Micros → Sender × StepOutcome}
    (hm : s.step now frame = .write f nextStep) (accepted : Bool) (after : Micros) :
    (nextStep accepted after).1.result ≠ some (.error .internal) := by
  have does := s.step_does now frame
  rw [hm] at does
  cases does with
  | offers running timely due sends =>
    have same : s.result ≠ some (.error .internal) := running ▸ nofun
    cases accepted with
    | false => exact same
    | true => cases sends <;> exact same

end Sender

namespace Receiver
variable {r next : Receiver} {now : Micros} {frame : Option Frame} {budget : Budget}
  {outcome : StepOutcome}

theorem Consumes.not_internal {f : Frame} (h : r.Consumes now f next) (running : r.result = none) :
    next.result ≠ some (.error .internal) := by
  cases h with
  | unexpected | misplaced | last => exact nofun
  | block | next => exact (show r.result ≠ _ from running ▸ nofun)

theorem openWith_ne (r : Receiver) (now : Micros) (f : Frame) (budget rest : Budget) :
    r.openWith now f budget ≠ (r.fail now .internal, rest) := by
  have hfail {error : TransferError} (h : error ≠ .internal) : (r.fail now error, budget) ≠
      (r.fail now .internal, rest) := by
    intro heq
    injection heq with hmove
    injection hmove with hnext
    exact h (by simpa [finish] using congrArg Receiver.result hnext)
  unfold openWith
  split
  · unfold takeSingle
    dsimp only
    split
    · exact hfail nofun
    · split
      · exact hfail nofun
      · exact nofun
  · unfold takeFirst
    split
    · exact hfail nofun
    · split
      · exact hfail nofun
      · split
        · exact hfail nofun
        · split <;> exact nofun
  · exact hfail nofun

/-- A step of a receiver ends with an internal error only if it is the first and made without a
frame. -/
theorem step_internal (running : r.result = none)
    (hm : (r.step now frame budget).1 = .rest next outcome)
    (hi : next.result = some (.error .internal)) : r.phase = .fresh ∧ frame = none := by
  have does := r.step_does now frame budget
  generalize hmove : r.step now frame budget = move at does hm
  cases does with
  | closed | first | holds | waits | stuck =>
    cases hm
    exact absurd (running.symm.trans hi) nofun
  | expires _ expired =>
    cases hm
    cases hi
    exact absurd (timeout_of_expired? expired) (by decide)
  | fails _ timely phase unfit =>
    cases hm
    cases hi
    refine ⟨phase, ?_⟩
    cases frame with
    | none => rfl
    | some f =>
      rw [step, running, timely] at hmove
      have hact : (r.noteReply now).act now (some f) budget =
          (r.noteReply now).openWith now f budget := by
        unfold act
        rw [show (r.noteReply now).phase = .fresh from phase]
      exact absurd (hact.symm.trans hmove) (openWith_ne _ now f budget budget)
  | single =>
    cases hm
    cases hi
  | consumes =>
    cases hm
    exact absurd hi (((r.noteReply now).consume_consumes now _).not_internal running)
  | rejects | offers => cases hm

theorem write_not_internal {f : Frame} {nextStep : Bool → Micros → Receiver × StepOutcome}
    (hm : (r.step now frame budget).1 = .write f nextStep) (accepted : Bool) (after : Micros) :
    (nextStep accepted after).1.result ≠ some (.error .internal) := by
  have does := r.step_does now frame budget
  generalize r.step now frame budget = move at does hm
  cases does with
  | rejects =>
    cases hm
    exact nofun
  | offers running =>
    cases hm
    have same : r.result ≠ some (.error .internal) := running ▸ nofun
    cases accepted <;> exact same
  | closed | expires | fails | single | first | holds | consumes | waits | stuck => cases hm

end Receiver

namespace Endpoint
variable {r next : Endpoint} {now after : Micros} {frame : Option Frame} {budget : Budget}
  {outcome : StepOutcome}

def Sendable : Endpoint → Prop
  | sender s => s.Sendable
  | receiver _ => True

theorem kept_sendable : Kept Sendable where
  sender created :=
    ⟨(Sender.emitted_of_create created).fits, (Sender.emitted_of_create created).segmented⟩
  receiver _ _ _ := trivial
  step {r} now after frame budget accepted h := by
    cases r with
    | sender s =>
      rw [step, finish_map]
      exact (s.step_does now frame).sendable h
    | receiver r =>
      simp only [step, finish_map]
      trivial
  onAck {r} now ack h := by
    cases r with
    | sender s => exact (s.onAck_learns now ack).sendable h
    | receiver r => trivial
  setter {r change} setter h := by
    cases setter <;> cases r <;> exact h

theorem step_internal (h : r.Sendable) (running : r.result = none)
    (hm : (r.step now frame budget).1 = .rest next outcome)
    (hi : next.result = some (.error .internal)) : ∃ q, r = .receiver q ∧
    q.phase = .fresh ∧ frame = none := by
  cases r with
  | sender s =>
    obtain ⟨s', hs, rfl⟩ := map_eq_rest hm
    exact absurd hi (Sender.step_not_internal h running hs)
  | receiver q =>
    obtain ⟨q', hq, rfl⟩ := map_eq_rest hm
    exact ⟨q, rfl, Receiver.step_internal running hq hi⟩

theorem write_not_internal {f : Frame} {nextStep : Bool → Micros → Endpoint × StepOutcome}
    (hm : (r.step now frame budget).1 = .write f nextStep) (accepted : Bool) (after : Micros) :
    (nextStep accepted after).1.result ≠ some (.error .internal) := by
  cases r with
  | sender s =>
    obtain ⟨made, hs, hn⟩ := map_eq_write hm
    rw [hn]
    exact Sender.write_not_internal hs accepted after
  | receiver q =>
    obtain ⟨made, hq, hn⟩ := map_eq_write hm
    rw [hn]
    exact Receiver.write_not_internal hq accepted after

/-- An endpoint that waits for an outcome ends with an internal error only if it is told of a
failure. -/
theorem onAck_internal {ack : Ack} (tidy : r.Tidy) (hs : r.Silent)
    (hr : r.result ≠ some (.error .internal))
    (hi : (r.onAck now ack).result = some (.error .internal)) : ack = .failure := by
  cases r with
  | sender s =>
    have learns := s.onAck_learns now ack
    change (s.onAck now ack).result = _ at hi
    generalize s.onAck now ack = s' at learns hi
    cases learns with
    | closed => exact absurd hi hr
    | fails open_ unwanted =>
      refine unwanted.resolve_right fun idle => ?_
      rcases hs with waiting | latched
      · exact absurd (idle.symm.trans waiting) nofun
      · exact latched (tidy.running open_)
    | single | last => cases hi
    | first hp | block hp | next hp =>
      exact absurd ((tidy.running (by simp [hp])).symm.trans hi) nofun
  | receiver q =>
    have learns := q.onAck_learns now ack
    change (q.onAck now ack).result = _ at hi
    generalize q.onAck now ack = q' at learns hi
    cases learns with
    | closed | unasked => exact absurd hi hr
    | fails => rfl
    | confirmed phase =>
      exact absurd ((Receiver.Tidy.running tidy (by simp [phase])).symm.trans hi) nofun
    | replays phase =>
      have running : q.result = none := Receiver.Tidy.running tidy (by simp [phase])
      exact absurd hi (((q.confirmed now).consume_consumes now _).not_internal running)

end Endpoint
end CanTransport
