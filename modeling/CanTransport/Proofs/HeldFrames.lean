import CanTransport.Proofs.Gathering

/-! # A frame that overtakes a confirmation

A consecutive frame may come before the receiver hears that its flow control has been sent. It is
then held and processed with the confirmation, and nothing tells in the end that it has not come
right after.
-/
namespace CanTransport

namespace Receiver
variable {r : Receiver} {now : Micros} {budget : Budget}

theorem Tidy.unconfirmed (h : r.Tidy) (hp : r.phase = .awaitFlowAck) :
    r.result = none ∧ r.nBr.isRunning = false ∧ r.nCr.isRunning = false := by
  rw [Tidy, hp] at h
  exact h

/-- A frame that comes first is held, unless the confirmation is late. -/
theorem Tidy.step_held (h : r.Tidy) (hp : r.phase = .awaitFlowAck)
    (ht : r.nAr.exceeded now Timing.confirmLimit = false) (f : Frame) (budget : Budget) :
    r.step now (some f) budget = (.rest (r.hold f) .inProgress, budget) := by
  obtain ⟨hr, hb, hc⟩ := h.unconfirmed hp
  have htimely : r.expired? now = none := by
    simp [expired?, ht, Stopwatch.exceeded_of_stopped hc]
  have hnote : r.noteReply now = r := by
    simp only [noteReply, Stopwatch.exceeded_of_stopped hb, Bool.or_false]
  rw [step, hr]
  dsimp only
  rw [htimely, hnote]
  simp only [act, hp]

theorem onAck_held {f : Frame} (hp : r.phase = .awaitFlowAck) (hh : r.held = some f)
    (now : Micros) :
    r.onAck now .success = (r.confirmed now).consume now f := by
  simp only [onAck, hp, hh, confirmed]

theorem onAck_free (hp : r.phase = .awaitFlowAck) (hh : r.held = none) (now : Micros) :
    r.onAck now .success = r.confirmed now := by
  simp only [onAck, hp, hh, confirmed]

theorem expired?_confirmed (r : Receiver) (now : Micros) :
    (r.confirmed now).expired? now = none := by
  have hA : (r.nAr.stop now).exceeded now Timing.confirmLimit = false :=
    Stopwatch.exceeded_of_stopped rfl now _
  have hC : (Stopwatch.start now).exceeded now Timing.consecutiveLimit = false :=
    Stopwatch.exceeded_start (Nat.le_add_right _ _)
  simp [expired?, confirmed, hA, hC]

/-- A frame that comes right after the confirmation is processed. -/
theorem step_confirmed (hr : r.result = none) (now : Micros) (f : Frame) (budget : Budget) :
    (r.confirmed now).step now (some f) budget =
      (((r.confirmed now).consume now f).settle, budget) := by
  have hnote : (r.confirmed now).noteReply now = r.confirmed now := by
    simp [noteReply, confirmed, Stopwatch.exceeded_of_stopped (w := .idle) rfl]
  rw [step, show (r.confirmed now).result = none from hr]
  dsimp only
  rw [expired?_confirmed, hnote]
  rfl

end Receiver

namespace Gathering
variable {x y : Gathering} {r : Receiver} {now : Micros} {inputs : List Endpoint.Input}

theorem run?_pair (x : Gathering) (first second : Endpoint.Input) :
    x.run? [first, second] = (x.react? first).bind fun y => y.react? second := by
  cases h : x.react? first <;> simp [run?, h]

/-- What comes of a frame that is processed with the confirmation. -/
def confirm? (x : Gathering) (now : Micros) (f : Frame) : Option Gathering :=
  (x.buffer.consecutive? x.receiver f).map fun buffer =>
    { receiver := (x.receiver.confirmed now).consume now f, buffer, processed := x.processed ++ [f] }

theorem run?_held (h : x.receiver.Tidy) (hp : x.receiver.phase = .awaitFlowAck)
    (hh : x.receiver.held = none) (ht : x.receiver.nAr.exceeded now Timing.confirmLimit = false)
    (after : Micros) (f : Frame) (budget : Budget) (accepted : Bool) :
    x.run? [.turn now after (some f) budget accepted, .outcome now .success] =
      x.confirm? now f := by
  have hturn : x.react? (.turn now after (some f) budget accepted) =
      some { x with receiver := x.receiver.hold f } := by
    have hidle : x.receiver.takesIn (.turn now after (some f) budget accepted) = none :=
      if_neg (by simp [hp])
    rw [react?, hidle]
    simp only [Receiver.react, h.step_held hp ht, Move.finish_rest]
  have hheld : (x.receiver.hold f).held = some f := by rw [Receiver.hold, hh, Option.none_or]
  have htaken : (x.receiver.hold f).takesIn (.outcome now .success) = some f :=
    (if_pos ⟨hp, rfl⟩).trans hheld
  rw [run?_pair, hturn, Option.bind_some, react?]
  simp only [htaken, Receiver.react, Receiver.onAck_held (r := x.receiver.hold f) hp hheld]
  rfl

theorem run?_confirmed (h : x.receiver.Tidy) (hp : x.receiver.phase = .awaitFlowAck)
    (hh : x.receiver.held = none) (now after : Micros) (f : Frame)
    (budget : Budget) (accepted : Bool) :
    x.run? [.outcome now .success, .turn now after (some f) budget accepted] =
      x.confirm? now f := by
  have hr := (h.unconfirmed hp).1
  have hack : x.react? (.outcome now .success) =
      some { x with receiver := x.receiver.confirmed now } := by
    have hfree : x.receiver.takesIn (.outcome now .success) = none := (if_pos ⟨hp, rfl⟩).trans hh
    rw [react?, hfree]
    simp only [Receiver.react, Receiver.onAck_free hp hh]
  have hfree : (x.receiver.confirmed now).takesIn (.turn now after (some f) budget accepted) =
      some f :=
    if_pos ⟨hr, x.receiver.expired?_confirmed now, .inr rfl⟩
  rw [run?_pair, hack, Option.bind_some, react?]
  simp only [hfree, Receiver.react, Receiver.step_confirmed hr]
  rfl

theorem reached {address : Address} {blockSize : UInt8} {separation : SeparationTime}
    {budget rest : Budget} (h : Receiver.create address blockSize separation budget = .ok (r, rest))
    (hx : run? { receiver := r } inputs = some x) :
    x.Regular ∧ x.receiver.Tidy := by
  have arises : Endpoint.Arises (.receiver (r.run inputs)) :=
    Endpoint.run_receiver r inputs ▸ (Endpoint.Arises.receiver h).run inputs
  obtain ⟨rfl, -⟩ := Receiver.create_ok h
  have hfresh : Regular { receiver := .initial address blockSize separation } :=
    .fresh rfl rfl rfl rfl rfl
  obtain ⟨y, hy, hreceiver, hregular⟩ := hfresh.run inputs
  obtain rfl : y = x := Option.some.inj (hy.symm.trans hx)
  exact ⟨hregular, hreceiver ▸ Endpoint.kept_tidy.arises arises⟩

/-- Whatever a receiver has been given before, a frame that comes while its flow control is
unconfirmed and the confirmation lead to the same, buffer and all, in either order. -/
theorem held_frame_commutes {address : Address} {blockSize : UInt8} {separation : SeparationTime}
    {budget rest : Budget} (h : Receiver.create address blockSize separation budget = .ok (r, rest))
    (hx : run? { receiver := r } inputs = some x) (hp : x.receiver.phase = .awaitFlowAck)
    (hh : x.receiver.held = none) (ht : x.receiver.nAr.exceeded now Timing.confirmLimit = false)
    (f : Frame) (after after' : Micros) (budget budget' : Budget) (accepted accepted' : Bool) :
    ∃ y, x.run? [.turn now after (some f) budget accepted, .outcome now .success] = some y ∧
      x.run? [.outcome now .success, .turn now after' (some f) budget' accepted'] = some y := by
  obtain ⟨regular, tidy⟩ := reached h hx
  obtain ⟨y, hy, -, -⟩ :=
    regular.run [.turn now after (some f) budget accepted, .outcome now .success]
  refine ⟨y, hy, ?_⟩
  rw [run?_confirmed tidy hp hh, ← run?_held tidy hp hh ht after f budget accepted]
  exact hy

def unconfirmed : Gathering where
  receiver :=
    { address := .physical 0x10 0xF1, phase := .awaitFlowAck, taken := [0, 1, 2, 3, 4, 5], expected := 10, blockSize := 0
      separation := .zero, sentBlockSize := 0, sentSeparation := .zero, nAr :=
        .start 5, nBr := ⟨none, 5⟩ }
  buffer := { bytes := [0, 1, 2, 3, 4, 5, 0, 0, 0, 0], offset := 6 }
  processed := [Endpoint.firstOfTwo]

/-- The last frame and the confirmation, five milliseconds after the flow control. -/
theorem held_frame_commutes_last :
    ∃ r rest y, Receiver.create (.physical 0x10 0xF1) 0 .zero ⟨132⟩ = .ok (r, rest) ∧
    run? { receiver := r } (Endpoint.heldBack.take 2) = some unconfirmed ∧
    unconfirmed.run? [.turn 5005 5005 (some Endpoint.secondOfTwo) ⟨90⟩ true,
      .outcome 5005 .success] = some y ∧
    unconfirmed.run? [.outcome 5005 .success, .turn 5005 5005 (some Endpoint.secondOfTwo) ⟨90⟩ true]
    = some y ∧ y.receiver.message = [0, 1, 2, 3, 4, 5, 6, 7, 8, 9] := by
  have created : Receiver.create (.physical 0x10 0xF1) 0 .zero ⟨132⟩ =
      .ok (.initial (.physical 0x10 0xF1) 0 .zero, ⟨100⟩) := rfl
  have hx : run? { receiver := .initial (.physical 0x10 0xF1) 0 .zero } (Endpoint.heldBack.take 2) =
      some unconfirmed := rfl
  have seen : (unconfirmed.run? [.turn 5005 5005 (some Endpoint.secondOfTwo) ⟨90⟩ true,
      .outcome 5005 .success]).map (fun y => y.receiver.message) =
      some [0, 1, 2, 3, 4, 5, 6, 7, 8, 9] := by decide
  have timely : unconfirmed.receiver.nAr.exceeded 5005 Timing.confirmLimit = false := by decide
  obtain ⟨y, hfirst, hlast⟩ := held_frame_commutes created hx rfl rfl timely Endpoint.secondOfTwo
      5005 5005 ⟨90⟩ ⟨90⟩ true true
  rw [hfirst, Option.map_some, Option.some.injEq] at seen
  exact ⟨_, _, y, created, hx, hfirst, hlast, seen⟩

end Gathering
end CanTransport
