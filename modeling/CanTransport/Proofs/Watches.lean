import CanTransport.Proofs.Keeping
import CanTransport.Proofs.Overtaking

/-! # The watches of an endpoint

In every phase that waits for somebody else a watch is running, and every step looks at it. A step
therefore leads to the end, to a watch that is counting and not past its limit, or to a frame that
the endpoint itself is to send next.
-/
namespace CanTransport

namespace Stopwatch
variable {w : Stopwatch} {now limit : Nat}

/-- Counting, and not past `limit` whole milliseconds. -/
def Within (w : Stopwatch) (now : Micros) (limit : Nat) : Prop :=
      w.isRunning = true ∧ w.millis now ≤ limit

theorem within_of_not_exceeded (hr : w.isRunning = true) (h : w.exceeded now limit = false) :
    w.Within now limit := by
  refine ⟨hr, ?_⟩
  simpa [exceeded, hr] using h

theorem within_start (now limit : Nat) : (start now).Within now limit := by
  simp [Within, isRunning, start, millis, elapsed]

theorem within_ensure (h : w.exceeded now limit = false) : (w.ensure now).Within now limit := by
  unfold ensure
  split
  · next hr => exact within_of_not_exceeded hr h
  · exact within_start now limit

end Stopwatch

namespace Sender
variable {s s' : Sender} {now after : Micros} {frame : Option Frame} {f : Frame}
  {outcome : StepOutcome} {accepted : Bool}

/-- A phase that waits has its watch running, and the last phases have the result. -/
def Timed (s : Sender) : Prop :=
  match s.phase with
  | .sendSingle | .sendFirst | .sendConsecutive => s.result = none
  | .awaitSingleAck | .awaitFirstAck | .awaitConsecutiveAck =>
    s.result = none ∧ s.nAs.isRunning = true
  | .awaitFirstFlow | .awaitFlow => s.result = none ∧ s.nBs.isRunning = true
  | .sent | .failed => s.result ≠ none

theorem timed_sending (hr : s.result = none)
    (hp : s.phase = .sendSingle ∨ s.phase = .sendFirst ∨ s.phase = .sendConsecutive) :
    s.Timed := by
  rcases hp with hp | hp | hp <;> rw [Timed, hp] <;> exact hr

theorem timed_finish (s : Sender) (now : Micros) (result : TransferResult) :
    (s.finish now result).Timed := by
  cases result <;> exact nofun

inductive Leads (s : Sender) (now : Micros) (frame : Option Frame) (s' : Sender) :
    StepOutcome → Prop
  | ends {result : TransferResult} (latched : s'.result ≠ none) (timed : s'.Timed) :
    Leads s now frame s' (.finished result)
  | offers (running : s'.result = none) (watch : s'.nAs.Within now Timing.confirmLimit)
      (timed : s'.Timed) :
    Leads s now frame s' .inProgress
  | waits (running : s'.result = none) (watch : s'.nBs.Within now Timing.flowControlLimit)
      (timed : s'.Timed) :
    Leads s now frame s' .inProgress
  | paces {due : Micros} (running : s'.result = none) (phase : s'.phase = .sendConsecutive)
      (paced : s'.dueAt = some due)
    (early : now < due) : Leads s now frame s' .inProgress
  | resumes {f : Frame} (running : s'.result = none) (input : frame = some f)
      (awaits : s.isAwaiting = true)
    (form : isFlowControl f = true)
    (status : FlowStatus.ofCode? (lowNibble (f.byte 0)) = some .continueToSend)
    (next : s' = (s.notePace now).resume now (f.byte 1) (.ofByte (f.byte 2))) :
    Leads s now frame s' .inProgress

theorem exceeded_of_expired? (h : s.expired? now = none) :
    s.nAs.exceeded now Timing.confirmLimit = false ∧
    s.nBs.exceeded now Timing.flowControlLimit = false := by
  unfold expired? at h
  split at h
  · cases h
  · next hA =>
    split at h
    · cases h
    · next hB => exact ⟨by simpa using hA, by simpa using hB⟩

theorem Timed.confirming (h : s.Timed) (hw : s.awaitsOutcome = true) : s.nAs.isRunning = true := by
  cases phase : s.phase <;> simp_all [Timed, awaitsOutcome]

theorem Timed.granting (h : s.Timed) (hw : s.isAwaiting = true) : s.nBs.isRunning = true := by
  rcases isAwaiting_iff.mp hw with hp | hp
  · rw [Timed, hp] at h
    exact h.2
  · rw [Timed, hp] at h
    exact h.2

theorem Timed.not_ended (h : s.Timed) (hr : s.result = none) :
    ¬(s.phase = .sent ∨ s.phase = .failed) := by
  rintro (hp | hp)
  · rw [Timed, hp] at h
    exact h hr
  · rw [Timed, hp] at h
    exact h hr

theorem Sends.leads {accept : Sender → Micros → Sender} (sends : s.Sends f accept)
    (hr : s.result = none) (ht : s.nAs.exceeded now Timing.confirmLimit = false)
    (h : ((s.notePace now).transmit now f accept).finish accepted after = (s', outcome)) :
    s.Leads now frame s' outcome := by
  have hwatch := Stopwatch.within_ensure ht
  cases accepted with
  | true =>
    cases h
    cases sends <;> exact .offers hr hwatch ⟨hr, hwatch.1⟩
  | false =>
    cases h
    exact .offers hr hwatch (timed_sending hr sends.phase)

theorem Does.leads {move : Move Sender} (does : s.Does now frame move) (hs : s.Timed)
    (h : move.finish accepted after = (s', outcome)) : s.Leads now frame s' outcome := by
  cases does with
  | closed latched =>
    cases h
    exact .ends (by simp [latched]) hs
  | expires | fails | overruns =>
    cases h
    exact .ends nofun (timed_finish _ now _)
  | offers running timely due sends => exact sends.leads running (exceeded_of_expired? timely).1 h
  | pauses running timely paced early =>
    cases h
    exact .paces running (dueAt_eq paced) paced early
  | waits running timely idle =>
    cases h
    obtain ⟨hA, hB⟩ := exceeded_of_expired? timely
    rcases idle with waiting | ⟨awaits, -⟩
    · exact .offers running (Stopwatch.within_of_not_exceeded (hs.confirming waiting) hA) hs
    · exact .waits running (Stopwatch.within_of_not_exceeded (hs.granting awaits) hB) hs
  | resumes input heard =>
    cases h
    obtain ⟨hr, -, awaits⟩ := running_of_hears heard
    obtain ⟨f, hf, form, status⟩ := flowControl_of_hears heard
    obtain rfl := Option.some.inj (input.symm.trans hf)
    exact .resumes hr input awaits form status rfl
  | postpones heard =>
    cases h
    have hr := (running_of_hears heard).1
    exact .waits hr (Stopwatch.within_start now _) ⟨hr, rfl⟩
  | stuck running timely ended => exact absurd ended (hs.not_ended running)

/-- Every step leads to the end, to a watch that is counting, to a pause, or on to the next block.
-/
theorem step_leads (hs : s.Timed) (h : (s.step now frame).finish accepted after = (s', outcome)) :
    s.Leads now frame s' outcome :=
  (s.step_does now frame).leads hs h

theorem timed_step (hs : s.Timed) : ((s.step now frame).finish accepted after).1.Timed := by
  cases h : (s.step now frame).finish accepted after with
  | mk s' outcome =>
    cases step_leads hs h with
    | ends latched timed => exact timed
    | offers running watch timed => exact timed
    | waits running watch timed => exact timed
    | paces running phase => simpa only [Timed, phase] using running
    | resumes running input awaits form status next =>
      subst next
      exact running

theorem timed_onAck (hs : s.Timed) (ack : Ack) : (s.onAck now ack).Timed := by
  have learns := s.onAck_learns now ack
  generalize s.onAck now ack = s' at learns ⊢
  cases learns with
  | closed => exact hs
  | fails | single | last => exact timed_finish _ now _
  | first hp | block hp =>
    rw [Timed, hp] at hs
    exact ⟨hs.1, rfl⟩
  | next hp =>
    rw [Timed, hp] at hs
    exact hs.1

theorem timed_create {address : Address} {message : List UInt8} {kind : MessageType}
    {waitLimit : Option UInt8} {budget rest : Budget}
    (h : create address message kind waitLimit budget = .ok (s, rest)) : s.Timed := by
  obtain rfl := create_ok h
  exact timed_sending rfl ((phase_initial address message kind waitLimit).imp_right .inl)

end Sender

namespace Receiver
variable {r r' : Receiver} {now after : Micros} {frame : Option Frame} {f : Frame} {budget : Budget}
  {outcome : StepOutcome} {accepted : Bool}

def Timed (r : Receiver) : Prop :=
  match r.phase with
  | .awaitFlowAck => r.nAr.isRunning = true
  | .awaitConsecutive => r.nCr.isRunning = true
  | .received | .failed => r.result ≠ none
  | .fresh | .sendFlow => True

theorem timed_finish (r : Receiver) (now : Micros) (result : TransferResult) :
    (r.finish now result).Timed := by
  cases result <;> exact nofun

inductive Leads (r : Receiver) (now : Micros) (frame : Option Frame) (r' : Receiver) :
    StepOutcome → Prop
  | ends {result : TransferResult} (latched : r'.result ≠ none) (timed : r'.Timed) :
    Leads r now frame r' (.finished result)
  | offers (running : r'.result = none) (watch : r'.nAr.Within now Timing.confirmLimit)
      (timed : r'.Timed) :
    Leads r now frame r' .inProgress
  | listens (running : r'.result = none) (watch : r'.nCr.Within now Timing.consecutiveLimit)
      (timed : r'.Timed) :
    Leads r now frame r' .inProgress
  | owes {outcome : StepOutcome} (running : r'.result = none) (phase : r'.phase = .sendFlow)
    (entered : r.phase = .fresh ∧ frame ≠ none ∨ r.phase = .awaitConsecutive) :
    Leads r now frame r' outcome

theorem Consumes.timed (consumes : r.Consumes now f r') (hp : r.phase = .awaitConsecutive) :
    r'.Timed := by
  cases consumes with
  | unexpected | misplaced | last => exact timed_finish _ now _
  | block => trivial
  | next =>
    have hnext : { r.absorbed f with nCr := .start now }.phase = .awaitConsecutive := hp
    rw [Timed, hnext]
    rfl

theorem Consumes.leads {r₀ r₁ : Receiver} (consumes : r₀.Consumes now f r₁)
    (hp : r.phase = .awaitConsecutive) (hp₀ : r₀.phase = .awaitConsecutive) (hr : r₀.result = none)
    (h : r₁.settle.finish accepted after = (r', outcome)) :
    r.Leads now frame r' outcome := by
  cases h
  have htimed := consumes.timed hp₀
  cases consumes with
  | unexpected | misplaced | last => exact .ends nofun htimed
  | block => exact .owes hr rfl (.inr hp)
  | next =>
    have hrun : Receiver.outcome { r₀.absorbed f with nCr := .start now } = .inProgress := by
      rw [Receiver.outcome, show Receiver.result { r₀.absorbed f with nCr := .start now } =
        none from hr]
    rw [hrun]
    exact .listens hr (Stopwatch.within_start now _) htimed

theorem exceeded_of_expired? (h : r.expired? now = none) :
    r.nAr.exceeded now Timing.confirmLimit = false ∧
    r.nCr.exceeded now Timing.consecutiveLimit = false := by
  unfold expired? at h
  split at h
  · cases h
  · next hA =>
    split at h
    · cases h
    · next hC => exact ⟨by simpa using hA, by simpa using hC⟩

theorem Timed.not_ended (h : r.Timed) (hr : r.result = none) :
    ¬(r.phase = .received ∨ r.phase = .failed) := by
  rintro (hp | hp)
  · rw [Timed, hp] at h
    exact h hr
  · rw [Timed, hp] at h
    exact h hr

theorem Does.leads {move : Move Receiver × Budget} (does : r.Does now frame budget move)
    (hr : r.Timed) (h : move.1.finish accepted after = (r', outcome)) :
    r.Leads now frame r' outcome := by
  cases does with
  | closed latched =>
    cases h
    exact .ends (by simp [latched]) hr
  | expires | fails | rejects | single =>
    cases h
    exact .ends nofun (timed_finish _ now _)
  | first running timely phase input =>
    cases h
    exact .owes running rfl (.inl ⟨phase, by simp [input]⟩)
  | offers running timely phase =>
    have hwatch := Stopwatch.within_ensure (exceeded_of_expired? timely).1
    cases accepted with
    | true =>
      cases h
      exact .offers running hwatch hwatch.1
    | false =>
      cases h
      refine .offers running hwatch ?_
      simp [Timed, noteReply, phase]
  | holds running timely phase =>
    cases h
    rw [Timed, phase] at hr
    refine .offers running (Stopwatch.within_of_not_exceeded hr (exceeded_of_expired? timely).1) ?_
    simpa [Timed, hold, noteReply, phase] using hr
  | consumes running timely phase =>
    exact ((r.noteReply now).consume_consumes now _).leads phase phase running h
  | waits running timely phase =>
    cases h
    obtain ⟨hA, hC⟩ := exceeded_of_expired? timely
    rcases phase with phase | phase
    · have hrunning : r.nAr.isRunning = true := by simpa only [Timed, phase] using hr
      exact .offers running (Stopwatch.within_of_not_exceeded hrunning hA) hr
    · have hrunning : r.nCr.isRunning = true := by simpa only [Timed, phase] using hr
      exact .listens running (Stopwatch.within_of_not_exceeded hrunning hC) hr
  | stuck running timely ended => exact absurd ended (hr.not_ended running)

/-- Every step leads to the end, to a watch that is counting, or to flow control that is to be sent.
-/
theorem step_leads (hr : r.Timed)
    (h : (r.step now frame budget).1.finish accepted after = (r', outcome)) :
    r.Leads now frame r' outcome :=
  (r.step_does now frame budget).leads hr h

theorem timed_step (hr : r.Timed) :
    ((r.step now frame budget).1.finish accepted after).1.Timed := by
  cases h : (r.step now frame budget).1.finish accepted after with
  | mk r' outcome =>
    cases step_leads hr h with
    | ends latched timed => exact timed
    | offers running watch timed => exact timed
    | listens running watch timed => exact timed
    | owes running phase => simp only [Timed, phase]

theorem timed_onAck (hr : r.Timed) (ack : Ack) : (r.onAck now ack).Timed := by
  have learns := r.onAck_learns now ack
  generalize r.onAck now ack = r' at learns ⊢
  cases learns with
  | closed | unasked => exact hr
  | fails => exact timed_finish r now _
  | confirmed => rfl
  | replays => exact (consume_consumes _ now _).timed rfl

end Receiver

namespace Endpoint

def Timed : Endpoint → Prop
  | sender s => s.Timed
  | receiver r => r.Timed

theorem kept_timed : Endpoint.Kept Timed where
  sender h := Sender.timed_create h
  receiver _ _ _ := trivial
  step {r} now after frame budget accepted hr := by
    cases r with
    | sender s =>
      rw [step, finish_map]
      exact Sender.timed_step hr
    | receiver r =>
      simp only [step, finish_map]
      exact Receiver.timed_step hr
  onAck {r} now ack hr := by
    cases r with
    | sender s => exact Sender.timed_onAck hr ack
    | receiver r => exact Receiver.timed_onAck hr ack
  setter {r change} setter hr := by
    cases setter <;> cases r <;> exact hr

end Endpoint
end CanTransport
