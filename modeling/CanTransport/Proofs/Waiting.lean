import CanTransport.Proofs.Handles

/-! # What an endpoint waits for

After each frame an endpoint waits for the outcome of that frame. It writes the next one only once
it has been told, and a sender only if it has been told of a success.
-/
namespace CanTransport

namespace Sender
variable {s next : Sender} {now after : Micros} {frame : Option Frame} {outcome : StepOutcome}

theorem awaitsOutcome_of_phase (h : next.phase = s.phase) :
    next.awaitsOutcome = s.awaitsOutcome := by
  rw [awaitsOutcome, h, awaitsOutcome]

def Rests (s next : Sender) : Prop :=
  next.phase = s.phase ∧ next.result = s.result ∨
    next.phase = .failed ∧ next.result ≠ none ∨
      next.result = s.result ∧ s.awaitsOutcome = false ∧ next.awaitsOutcome = false ∧
      s.phase ≠ .failed

theorem settled_of_isAwaiting (h : s.isAwaiting = true) :
    s.awaitsOutcome = false ∧ s.phase ≠ .failed := by
  rcases isAwaiting_iff.mp h with hp | hp <;> simp [awaitsOutcome, hp]

theorem step_rests (h : s.step now frame = .rest next outcome) : s.Rests next := by
  have does := s.step_does now frame
  rw [h] at does
  cases does with
  | closed | pauses | waits | stuck => exact .inl ⟨rfl, rfl⟩
  | expires | fails | overruns => exact .inr (.inl ⟨rfl, nofun⟩)
  | resumes input heard | postpones heard =>
    obtain ⟨-, -, awaits⟩ := running_of_hears heard
    obtain ⟨hw, hf⟩ := settled_of_isAwaiting awaits
    exact .inr (.inr ⟨rfl, hw, rfl, hf⟩)

structure Writes (s : Sender) (next : Bool → Micros → Sender) : Prop where
  running : s.result = none
  settled : s.awaitsOutcome = false
  unfailed : s.phase ≠ .failed
  accepted : ∀ after, (next true after).awaitsOutcome = true
  refused : ∀ after, (next false after).phase = s.phase

theorem step_writes {f : Frame} {nextStep : Bool → Micros → Sender × StepOutcome}
    (h : s.step now frame = .write f nextStep) : s.Writes fun a t => (nextStep a t).1 := by
  have does := s.step_does now frame
  rw [h] at does
  cases does with
  | offers running timely due sends =>
    constructor
    case running => exact running
    case settled => rcases sends.phase with hp | hp | hp <;> simp [awaitsOutcome, hp]
    case unfailed => rcases sends.phase with hp | hp | hp <;> simp [hp]
    case accepted =>
      intro after
      cases sends <;> rfl
    case refused =>
      intro after
      rfl

theorem step_silent (s : Sender) (now after : Micros) (frame : Option Frame)
    (accepted : Bool) (length : Nat) :
    ((s.step now frame).finish accepted after).2 ≠ .firstFrame length := by
  have does := s.step_does now frame
  generalize s.step now frame = move at does ⊢
  cases does <;> exact nofun

/-- A sender that an outcome does not end has been sent already, or has waited for that outcome and
it was a success. -/
theorem onAck_awaits {ack : Ack} (h : (s.onAck now ack).phase ≠ .failed) :
    s.onAck now ack = s ∨ s.awaitsOutcome = true ∧ ack = .success ∧
    (s.onAck now ack).awaitsOutcome = false := by
  have learns := s.onAck_learns now ack
  generalize s.onAck now ack = s' at learns h ⊢
  cases learns with
  | closed => exact .inl rfl
  | fails => exact absurd rfl h
  | single hp | first hp | last hp | block hp | next hp =>
    exact .inr ⟨by simp [awaitsOutcome, hp], rfl, rfl⟩

end Sender

namespace Receiver
variable {r next : Receiver} {now : Micros} {frame : Option Frame} {budget : Budget}
  {outcome : StepOutcome}

def awaitsOutcome (r : Receiver) : Bool := r.phase = .awaitFlowAck

theorem step_rests (h : (r.step now frame budget).1 = .rest next outcome)
    (hs : r.awaitsOutcome = true ∨ r.result ≠ none) :
    next.awaitsOutcome = true ∨ next.result ≠ none := by
  have does := r.step_does now frame budget
  generalize hmove : r.step now frame budget = move at does h
  have elsewhere {p : ReceiverPhase} (hr : r.result = none) (hp : r.phase = p)
      (hne : p ≠ .awaitFlowAck) : False := by
    rcases hs with hs | hs
    · simp [awaitsOutcome, hp, hne] at hs
    · exact hs hr
  cases does with
  | closed | holds | waits | stuck =>
    cases h
    exact hs
  | expires | fails | single =>
    cases h
    exact .inr nofun
  | rejects | offers => cases h
  | first running timely phase => exact (elsewhere running phase nofun).elim
  | consumes running timely phase => exact (elsewhere running phase nofun).elim

theorem step_writes {f : Frame} {nextStep : Bool → Micros → Receiver × StepOutcome}
    (h : (r.step now frame budget).1 = .write f nextStep) :
    r.result = none ∧ r.awaitsOutcome = false ∧
      ∀ after, (nextStep true after).1.awaitsOutcome = true ∨
        (nextStep true after).1.result ≠ none := by
  have does := r.step_does now frame budget
  generalize r.step now frame budget = move at does h
  cases does with
  | rejects running timely phase =>
    cases h
    exact ⟨running, by simp [awaitsOutcome, phase], fun after => .inr nofun⟩
  | offers running timely phase =>
    cases h
    exact ⟨running, by simp [awaitsOutcome, phase], fun after => .inl rfl⟩
  | closed | expires | fails | single | first | holds | consumes | waits | stuck => cases h

theorem write_silent {f : Frame} {nextStep : Bool → Micros → Receiver × StepOutcome}
    (h : (r.step now frame budget).1 = .write f nextStep) (accepted : Bool)
    (after : Micros) (length : Nat) :
    (nextStep accepted after).2 ≠ .firstFrame length := by
  have does := r.step_does now frame budget
  generalize r.step now frame budget = move at does h
  cases does with
  | rejects | offers =>
    cases h
    exact nofun
  | closed | expires | fails | single | first | holds | consumes | waits | stuck => cases h

end Receiver

namespace Endpoint
variable {r next : Endpoint} {now : Micros} {frame : Option Frame} {budget : Budget}
  {outcome : StepOutcome}

def awaitsOutcome : Endpoint → Bool
  | sender s => s.awaitsOutcome
  | receiver r => r.awaitsOutcome

/-- Writes nothing until it is told an outcome, or ever again. -/
def Silent (r : Endpoint) : Prop := r.awaitsOutcome = true ∨ r.result ≠ none

theorem Setter.silent {change : Endpoint → Endpoint} (h : Setter change) :
    (change r).Silent ↔ r.Silent := by
  cases h <;> cases r <;> rfl

theorem Setter.sender {change : Endpoint → Endpoint} (h : Setter change) (s : Sender) :
    change (.sender s) = .sender s := by
  cases h <;> rfl

theorem Setter.eq_sender {change : Endpoint → Endpoint} {s : Sender} (h : Setter change)
    (hs : change r = .sender s) : r = .sender s := by
  cases h <;> cases r <;> first | exact hs | cases hs

theorem map_eq_rest {σ τ : Type} {f : σ → τ} {m : Move σ} {t : τ} (h : m.map f = .rest t outcome) :
    ∃ s, m = .rest s outcome ∧ f s = t := by
  cases m with
  | rest s o =>
    cases h
    exact ⟨s, rfl, rfl⟩
  | write g nextStep => cases h

theorem map_eq_write {σ τ : Type} {f : σ → τ} {m : Move σ} {g : Frame}
    {nextStep : Bool → Micros → τ × StepOutcome} (h : m.map f = .write g nextStep) :
    ∃ step, m = .write g step ∧ ∀ accepted after, (nextStep accepted after).1 =
      f (step accepted after).1 := by
  cases m with
  | rest s o => cases h
  | write g' step =>
    cases h
    exact ⟨step, rfl, fun _ _ => rfl⟩

/-- Only a step that offers no frame announces a message. -/
theorem write_silent {f : Frame} {nextStep : Bool → Micros → Endpoint × StepOutcome}
    (h : (r.step now frame budget).1 = .write f nextStep) (accepted : Bool)
    (after : Micros) (length : Nat) :
    (nextStep accepted after).2 ≠ .firstFrame length := by
  cases r with
  | sender s =>
    cases hm : s.step now frame with
    | rest next outcome => simp [step, hm, Move.map] at h
    | write g next =>
      obtain ⟨-, rfl⟩ : g = f ∧ _ = nextStep := by simpa [step, hm, Move.map] using h
      have hsilent := s.step_silent now after frame accepted length
      rw [hm] at hsilent
      exact hsilent
  | receiver q =>
    cases hm : (q.step now frame budget).1 with
    | rest next outcome => simp [step, hm, Move.map] at h
    | write g next =>
      obtain ⟨-, rfl⟩ : g = f ∧ _ = nextStep := by simpa [step, hm, Move.map] using h
      exact Receiver.write_silent hm accepted after length

theorem step_rests (h : (r.step now frame budget).1 = .rest next outcome) (hs : r.Silent) :
    next.Silent := by
  cases r with
  | sender s =>
    obtain ⟨s', hm, rfl⟩ := map_eq_rest h
    rcases Sender.step_rests hm with ⟨hp, hr⟩ | ⟨-, hr⟩ | ⟨hr, ha, -⟩
    · rw [Silent, awaitsOutcome, result, Sender.awaitsOutcome_of_phase hp, hr]
      exact hs
    · exact .inr hr
    · have hn := hs.resolve_left (by simp [awaitsOutcome, ha])
      exact .inr (by simpa [result, hr] using hn)
  | receiver r =>
    obtain ⟨r', hm, rfl⟩ := map_eq_rest h
    exact Receiver.step_rests hm hs

theorem step_writes {f : Frame} {nextStep : Bool → Micros → Endpoint × StepOutcome}
    (h : (r.step now frame budget).1 = .write f nextStep) :
    ¬r.Silent ∧ ∀ after, (nextStep true after).1.Silent := by
  cases r with
  | sender s =>
    obtain ⟨step, hm, hn⟩ := map_eq_write h
    have hw := Sender.step_writes hm
    refine ⟨?_, fun after => hn true after ▸ .inl (hw.accepted after)⟩
    simp [Silent, awaitsOutcome, result, hw.running, hw.settled]
  | receiver r =>
    obtain ⟨step, hm, hn⟩ := map_eq_write h
    obtain ⟨hr, ha, hw⟩ := Receiver.step_writes hm
    refine ⟨?_, fun after => hn true after ▸ hw after⟩
    simp [Silent, awaitsOutcome, result, hr, ha]

end Endpoint
end CanTransport
