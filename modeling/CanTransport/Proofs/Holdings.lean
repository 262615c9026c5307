import CanTransport.Proofs.Hosting

/-! # What an endpoint takes out of the budget it holds

A step takes from the budget exactly the bytes by which the endpoint's hold on it grows. Only the
first frame of a reception is paid for, so a receiver that has not seen it must hold nothing for a
message yet.
-/
namespace CanTransport

theorem Budget.reserve_ok {budget rest : Budget} {bytes : Nat}
    (h : budget.reserve bytes = .ok rest) :
    0 ≤ rest.remaining ∧ rest.remaining + bytes = budget.remaining := by
  rw [reserve] at h
  split at h
  · rw [take] at h
    split at h
    · next hrest =>
      cases h
      exact ⟨hrest.1, Int.sub_add_cancel _ _⟩
    · cases h
  · cases h

theorem Budget.release_eq {budget : Budget} {bytes : Nat} (h : 0 ≤ budget.remaining)
    (ht : budget.remaining + bytes ≤ top) :
    (budget.release bytes).remaining = budget.remaining + bytes := by
  change saturate (budget.remaining + bytes) = _
  rw [saturate, Int.min_eq_left ht, Int.max_eq_right]
  have hbottom : bottom ≤ 0 := by decide
  omega

namespace Receiver
variable {r : Receiver} {now after : Micros} {budget : Budget} {accepted : Bool}

def Modest (r : Receiver) : Prop := r.phase = .fresh → r.expected = 0

/-- What was taken out of the budget is held, and the step is past the first frame or has done
nothing. -/
structure Pays (r : Receiver) (budget : Budget) (next : Receiver) (rest : Budget) : Prop where
  balance : rest.remaining + next.expected = budget.remaining + r.expected
  covered : 0 ≤ budget.remaining → 0 ≤ rest.remaining
  modest : next.Modest

theorem Pays.free {next : Receiver} (he : next.expected = r.expected) (hm : next.Modest) :
    r.Pays budget next budget :=
  ⟨by rw [he], id, hm⟩

theorem Pays.reserve {next : Receiver} {rest : Budget} (h : budget.reserve next.expected = .ok rest)
    (hr : r.expected = 0) (hm : next.Modest) : r.Pays budget next rest := by
  obtain ⟨hrest, hbalance⟩ := Budget.reserve_ok h
  exact ⟨by omega, fun _ => hrest, hm⟩

theorem modest_finish (r : Receiver) (now : Micros) (result : TransferResult) :
    (r.finish now result).Modest := by
  intro hp
  cases result with
  | ok => cases hp
  | error => cases hp

theorem modest_consume (r : Receiver) (now : Micros) (f : Frame) (hp : r.phase ≠ .fresh) :
    (r.consume now f).Modest := by
  have consumes := r.consume_consumes now f
  generalize r.consume now f = r' at consumes ⊢
  cases consumes with
  | unexpected | misplaced | last => exact modest_finish _ now _
  | block => exact nofun
  | next => exact fun h => absurd h hp

theorem Does.pays {frame : Option Frame} {move : Move Receiver × Budget}
    (does : r.Does now frame budget move) (h : r.Modest) :
    r.Pays budget (move.1.finish accepted after).1 move.2 := by
  cases does with
  | closed | holds | waits | stuck => exact .free rfl h
  | expires | fails | rejects => exact .free rfl (modest_finish _ now _)
  | single running timely phase input kind short carried reserved =>
    exact .reserve reserved (h phase) (modest_finish _ now _)
  | first running timely phase input kind physical full announced long reserved =>
    exact .reserve reserved (h phase) nofun
  | offers running timely phase =>
    cases accepted with
    | true => exact .free rfl nofun
    | false => exact .free rfl fun hf => absurd (phase.symm.trans hf) nofun
  | consumes running timely phase =>
    have hfresh : (r.noteReply now).phase ≠ .fresh := fun hf => absurd (phase.symm.trans hf) nofun
    exact .free (Bench.NodeRun.expected_consume _ now _) (modest_consume _ now _ hfresh)

theorem pays_step (h : r.Modest) (frame : Option Frame) :
    r.Pays budget ((r.step now frame budget).1.finish accepted after).1
      (r.step now frame budget).2 :=
  (r.step_does now frame budget).pays h

def Spares (budget : Budget) (step : Move Receiver × Budget) : Prop :=
  step.2 = budget ∨ ∃ next outcome, step.1 = .rest next outcome

/-- Only a step that writes nothing takes from the budget. -/
theorem spares_step (r : Receiver) (now : Micros) (frame : Option Frame) (budget : Budget) :
    Spares budget (r.step now frame budget) := by
  have does := r.step_does now frame budget
  generalize r.step now frame budget = move at does ⊢
  cases does with
  | single | first => exact .inr ⟨_, _, rfl⟩
  | closed | expires | fails | rejects | offers | holds | consumes | waits | stuck => exact .inl rfl

theorem modest_onAck (h : r.Modest) (now : Micros) (ack : Ack) : (r.onAck now ack).Modest := by
  have learns := r.onAck_learns now ack
  generalize r.onAck now ack = r' at learns ⊢
  cases learns with
  | closed | unasked => exact h
  | fails => exact modest_finish _ now _
  | confirmed => exact nofun
  | replays => exact modest_consume _ now _ nofun

end Receiver

namespace Endpoint
variable {r next : Endpoint} {now : Micros} {frame : Option Frame} {budget rest : Budget}

def Modest : Endpoint → Prop
  | sender _ => True
  | receiver r => r.Modest

theorem footprint_sender (s : Sender) (now after : Micros) (frame : Option Frame)
    (accepted : Bool) :
    ((s.step now frame).finish accepted after).1.footprint = s.footprint := by
  obtain ⟨-, hm, -⟩ : _ ∧ ((s.step now frame).finish accepted after).1.message = s.message ∧ _ := by
    simpa [Sender.subject] using s.subject_step now after frame accepted
  exact footprint_sender_congr hm

theorem rest_pays {outcome : StepOutcome} (h : r.Modest)
    (hs : r.step now frame budget = (.rest next outcome, rest)) :
    rest.remaining + next.footprint = budget.remaining + r.footprint ∧
      (0 ≤ budget.remaining → 0 ≤ rest.remaining) ∧ next.Modest := by
  have hnext : (((r.step now frame budget).1).finish true now).1 = next := by rw [hs]; rfl
  have hrest : (r.step now frame budget).2 = rest := by rw [hs]
  cases r with
  | sender s =>
    rw [← hnext, ← hrest, step, finish_map]
    exact ⟨congrArg (fun n : Nat => budget.remaining + n) (footprint_sender s now now frame true),
      id, trivial⟩
  | receiver r =>
    have hp : r.Pays budget (((r.step now frame budget).1).finish true now).1
        (r.step now frame budget).2 :=
      Receiver.pays_step h frame
    rw [← hnext, ← hrest, step, finish_map]
    refine ⟨?_, hp.covered, hp.modest⟩
    have hbalance := hp.balance
    simp only [footprint, Receiver.footprint]
    omega

/-- A step that offers a frame takes nothing, whatever becomes of the frame. -/
theorem write_spares {f : Frame} {after : Bool → Micros → Endpoint × StepOutcome} (h : r.Modest)
    (hw : (r.step now frame budget).1 = .write f after) : (r.step now frame budget).2 = budget ∧
      ∀ accepted clock, (after accepted clock).1.footprint = r.footprint ∧
        (after accepted clock).1.Modest := by
  have hafter : ∀ accepted clock,
      (((r.step now frame budget).1).finish accepted clock).1 = (after accepted clock).1 := by
    intro accepted clock
    rw [hw]
    rfl
  cases r with
  | sender s =>
    refine ⟨rfl, fun accepted clock => ?_⟩
    rw [← hafter, step, finish_map]
    exact ⟨footprint_sender s now clock frame accepted, trivial⟩
  | receiver r =>
    have hspare : (r.step now frame budget).2 = budget := by
      refine (r.spares_step now frame budget).resolve_right ?_
      rintro ⟨next, outcome, hr⟩
      rw [step] at hw
      simp [hr, Move.map] at hw
    refine ⟨hspare, fun accepted clock => ?_⟩
    have hp : r.Pays budget (((r.step now frame budget).1).finish accepted clock).1
        (r.step now frame budget).2 :=
      Receiver.pays_step h frame
    rw [← hafter, step, finish_map]
    refine ⟨?_, hp.modest⟩
    have hbalance := hp.balance
    rw [hspare] at hbalance
    simp only [footprint, Receiver.footprint]
    omega

theorem modest_onAck (h : r.Modest) (now : Micros) (ack : Ack) : (r.onAck now ack).Modest := by
  cases r with
  | sender s => trivial
  | receiver r => exact Receiver.modest_onAck h now ack

theorem Setter.footprint {change : Endpoint → Endpoint} (h : Setter change) (r : Endpoint) :
    (change r).footprint = r.footprint := by
  cases h <;> cases r <;> rfl

theorem Setter.modest {change : Endpoint → Endpoint} (h : Setter change) (hr : r.Modest) :
    (change r).Modest := by
  cases h <;> cases r <;> exact hr

end Endpoint
end CanTransport
