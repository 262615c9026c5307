import CanTransport.Proofs.Inputs

/-! # The phases of an endpoint, as they are documented

The documented machine goes from phase to phase by what can be seen from outside: a frame that is
taken by the controller, a frame that comes, a confirmation. Whatever is done to an endpoint, its
phase stays, goes one such way, or goes from a running transfer to a failed one. At the end nothing
changes any more.
-/
namespace CanTransport

namespace Pdu
variable {id : Address} {message chunk : List UInt8} {sequence : UInt8} {carried : Nat} {f : Frame}

theorem pduType?_singleFrame (h : singleFrame? id message = some f) :
    f.pduType? = some .singleFrame := by
  have hs : message.length ≤ singleLimit := by
    unfold singleFrame? at h
    split at h
    · assumption
    · cases h
  obtain ⟨g, hg, -, hkind, -⟩ := singleFrame?_spec id hs
  exact Option.some.inj (hg.symm.trans h) ▸ hkind

theorem pduType?_firstFrame (h : firstFrame? id message = some (f, carried)) :
    f.pduType? = some .firstFrame := by
  obtain ⟨hs, hl⟩ : singleLimit < message.length ∧ message.length < lengthLimit := by
    unfold firstFrame? at h
    dsimp only at h
    split at h
    · cases h
    · next hs =>
      refine ⟨Nat.lt_of_not_le hs, ?_⟩
      split at h
      · next hshort => exact Nat.lt_of_le_of_lt hshort (by decide)
      · split at h
        · assumption
        · cases h
  obtain ⟨g, hg, -, hkind, -⟩ := firstFrame?_spec id hs hl
  obtain rfl : g = f := congrArg Prod.fst (Option.some.inj (hg.symm.trans h))
  exact hkind

theorem pduType?_consecutiveFrame (h : consecutiveFrame? id sequence chunk = some f) :
    f.pduType? = some .consecutiveFrame := by
  have hc : chunk.length ≤ chunkSize := by
    unfold consecutiveFrame? at h
    split at h
    · assumption
    · cases h
  obtain ⟨g, hg, -, hkind, -⟩ := consecutiveFrame?_spec id sequence chunk hc
  exact Option.some.inj (hg.symm.trans h) ▸ hkind

theorem pduType?_flowControl (id : Address) (status : FlowStatus) (blockSize : UInt8)
    (separation : SeparationTime) :
    (flowControl id status blockSize separation).pduType? = some .flowControl := by
  cases status <;> rfl

end Pdu

/-- Where an endpoint stands. -/
inductive Phase
  | sender (phase : SenderPhase)
  | receiver (phase : ReceiverPhase)
deriving DecidableEq

/-- What takes an endpoint from one phase to the next. -/
inductive Sign
  | written (kind : PduType)
  | read (kind : PduType)
  | heard (status : FlowStatus)
  | confirmed

/-- The documented machine of a sender, and the one of a receiver. A wait may also come before the
first block. -/
inductive Edge : Phase → Sign → Phase → Prop
  | sendSingle : Edge (.sender .sendSingle) (.written .singleFrame) (.sender .awaitSingleAck)
  | singleSent : Edge (.sender .awaitSingleAck) .confirmed (.sender .sent)
  | sendFirst : Edge (.sender .sendFirst) (.written .firstFrame) (.sender .awaitFirstAck)
  | firstSent : Edge (.sender .awaitFirstAck) .confirmed (.sender .awaitFirstFlow)
  | firstWait : Edge (.sender .awaitFirstFlow) (.heard .wait) (.sender .awaitFlow)
  | firstGo : Edge (.sender .awaitFirstFlow) (.heard .continueToSend) (.sender .sendConsecutive)
  | go : Edge (.sender .awaitFlow) (.heard .continueToSend) (.sender .sendConsecutive)
  | sendConsecutive :
    Edge (.sender .sendConsecutive) (.written .consecutiveFrame) (.sender .awaitConsecutiveAck)
  | consecutiveSent : Edge (.sender .awaitConsecutiveAck) .confirmed (.sender .sendConsecutive)
  | blockSent : Edge (.sender .awaitConsecutiveAck) .confirmed (.sender .awaitFlow)
  | messageSent : Edge (.sender .awaitConsecutiveAck) .confirmed (.sender .sent)
  | takeSingle : Edge (.receiver .fresh) (.read .singleFrame) (.receiver .received)
  | takeFirst : Edge (.receiver .fresh) (.read .firstFrame) (.receiver .sendFlow)
  | sendFlow : Edge (.receiver .sendFlow) (.written .flowControl) (.receiver .awaitFlowAck)
  | flowSent : Edge (.receiver .awaitFlowAck) .confirmed (.receiver .awaitConsecutive)
  | takeConsecutive :
    Edge (.receiver .awaitConsecutive) (.read .consecutiveFrame) (.receiver .awaitConsecutive)
  | takeBlock : Edge (.receiver .awaitConsecutive) (.read .consecutiveFrame) (.receiver .sendFlow)
  | takeLast : Edge (.receiver .awaitConsecutive) (.read .consecutiveFrame) (.receiver .received)

def Phase.isDone : Phase → Bool
  | sender phase => phase = .sent
  | receiver phase => phase = .received

def Phase.failed : Phase → Phase
  | sender _ => .sender .failed
  | receiver _ => .receiver .failed

def Phase.isFailed : Phase → Bool
  | sender phase => phase = .failed
  | receiver phase => phase = .failed

namespace Endpoint

def phase : Endpoint → Phase
  | sender s => .sender s.phase
  | receiver r => .receiver r.phase

def message : Endpoint → List UInt8
  | sender s => s.message
  | receiver r => r.message

def held : Endpoint → Option Frame
  | sender _ => none
  | receiver r => r.held

def watches : Endpoint → List Stopwatch
  | sender s => [s.nAs, s.nBs, s.nCs]
  | receiver r => [r.nAr, r.nBr, r.nCr]

/-- What can be seen from outside of what is done to an endpoint. -/
inductive Shows (r : Endpoint) : Input → Sign → Prop
  | written {now after : Micros} {frame : Option Frame} {budget : Budget}
      {f : Frame} {kind : PduType} (offered : (r.step now frame budget).1.frame? = some f)
      (form : f.pduType? = some kind) :
      Shows r (.turn now after frame budget true) (.written kind)
  | read {now after : Micros} {budget : Budget} {accepted : Bool} {f : Frame} {kind : PduType}
      (form : f.pduType? = some kind) :
    Shows r (.turn now after (some f) budget accepted) (.read kind)
  | heard {now after : Micros} {budget : Budget} {accepted : Bool} {f : Frame} {status : FlowStatus}
      (form : Sender.isFlowControl f = true)
      (code : FlowStatus.ofCode? (lowNibble (f.byte 0)) = some status) :
      Shows r (.turn now after (some f) budget accepted) (.heard status)
  | confirmed {now : Micros} : Shows r (.outcome now .success) .confirmed

/-- The phase after something is done to an endpoint. With its confirmation a flow control may let
in the frame held, as if that had come right after. -/
inductive Changes (r : Endpoint) (input : Input) : Phase → Prop
  | stays : Changes r input r.phase
  | moves {sign : Sign} {next : Phase} (shown : r.Shows input sign)
      (edge : Edge r.phase sign next) : Changes r input next
  | replays {f : Frame} {kind : PduType} {between next : Phase} (shown : r.Shows input .confirmed)
      (held : r.held = some f) (form : f.pduType? = some kind)
      (first : Edge r.phase .confirmed between) (second : Edge between (.read kind) next) :
      Changes r input next
  | fails (running : r.result = none) : Changes r input r.phase.failed

end Endpoint

namespace Sender
variable {s : Sender} {now after : Micros} {frame : Option Frame} {f : Frame}

/-- A frame taken leads along the edge of its kind. -/
theorem Sends.edge {accepted : Sender → Micros → Sender} (h : s.Sends f accepted) :
    ∃ kind, f.pduType? = some kind ∧
      ∀ s' after, Edge (.sender s.phase) (.written kind) (.sender (accepted s' after).phase) := by
  cases h with
  | single hp hf => exact ⟨_, Pdu.pduType?_singleFrame hf, fun _ _ => by rw [hp]; exact .sendSingle⟩
  | first hp hf => exact ⟨_, Pdu.pduType?_firstFrame hf, fun _ _ => by rw [hp]; exact .sendFirst⟩
  | consecutive hp hf =>
    exact ⟨_, Pdu.pduType?_consecutiveFrame hf, fun _ _ => by rw [hp]; exact .sendConsecutive⟩

theorem changes_turn (hs : s.Tidy) (now after : Micros) (frame : Option Frame)
    (budget : Budget) (accepted : Bool) :
    (Endpoint.sender s).Changes (.turn now after frame budget accepted)
      (.sender ((s.step now frame).finish accepted after).1.phase) := by
  have does := s.step_does now frame
  have written {f : Frame} (hf : (s.step now frame).frame? = some f) :
      ((Endpoint.sender s).step now frame budget).1.frame? = some f := by
    rw [Endpoint.step, ← hf]
    cases s.step now frame <;> rfl
  generalize s.step now frame = move at does written ⊢
  cases does with
  | closed | pauses | waits => exact .stays
  | expires running => exact .fails running
  | fails running => exact .fails running
  | overruns heard => exact .fails (running_of_hears heard).1
  | offers running timely due sends =>
    cases accepted with
    | false => exact .stays
    | true =>
      obtain ⟨kind, form, edge⟩ := sends.edge
      exact .moves (.written (written rfl) form) (edge _ _)
  | resumes input heard =>
    obtain ⟨f, rfl, form, code⟩ := flowControl_of_hears heard
    refine .moves (.heard form code) ?_
    rcases isAwaiting_iff.mp (running_of_hears heard).2.2 with hp | hp
    · rw [Endpoint.phase, hp]
      exact .firstGo
    · rw [Endpoint.phase, hp]
      exact .go
  | postpones heard =>
    obtain ⟨f, rfl, form, code⟩ := flowControl_of_hears heard
    rcases isAwaiting_iff.mp (running_of_hears heard).2.2 with hp | hp
    · refine .moves (.heard form code) ?_
      rw [Endpoint.phase, hp]
      exact .firstWait
    · exact (show (Endpoint.sender s).phase = .sender .awaitFlow from congrArg Phase.sender hp) ▸
        .stays
  | stuck running timely ended => exact absurd ended (not_or.mpr (hs.open_ running))

theorem changes_outcome (hs : s.Tidy) (now : Micros) (ack : Ack) :
    (Endpoint.sender s).Changes (.outcome now ack) (.sender (s.onAck now ack).phase) := by
  have learns := s.onAck_learns now ack
  generalize s.onAck now ack = s' at learns ⊢
  cases learns with
  | closed => exact .stays
  | fails open_ => exact .fails (hs.running open_)
  | single hp =>
    refine .moves .confirmed ?_
    rw [Endpoint.phase, hp]
    exact .singleSent
  | first hp =>
    refine .moves .confirmed ?_
    rw [Endpoint.phase, hp]
    exact .firstSent
  | last hp =>
    refine .moves .confirmed ?_
    rw [Endpoint.phase, hp]
    exact .messageSent
  | block hp =>
    refine .moves .confirmed ?_
    rw [Endpoint.phase, hp]
    exact .blockSent
  | next hp =>
    refine .moves .confirmed ?_
    rw [Endpoint.phase, hp]
    exact .consecutiveSent

theorem Tidy.latched (h : s.Tidy) {result : TransferResult} (hr : s.result = some result)
    (now : Micros) :
    (∀ frame, s.step now frame = .rest s (.finished result)) ∧ ∀ ack, s.onAck now ack = s := by
  refine ⟨fun frame => by rw [step, hr], fun ack => ?_⟩
  rcases (h.ended hr).2 with hp | hp <;> simp only [onAck, hp]

end Sender

namespace Receiver
variable {r : Receiver} {now after : Micros} {frame : Option Frame} {f : Frame}

theorem Consumes.edge {r' : Receiver} (h : r.Consumes now f r') (hp : r.phase = .awaitConsecutive) :
    r'.phase = .failed ∨
      f.pduType? = some .consecutiveFrame ∧ Edge (.receiver r.phase) (.read .consecutiveFrame)
      (.receiver r'.phase) := by
  rw [hp]
  cases h with
  | unexpected | misplaced => exact .inl rfl
  | last kind => exact .inr ⟨kind, .takeLast⟩
  | block kind => exact .inr ⟨kind, .takeBlock⟩
  | next kind =>
    have hnext : { r.absorbed f with nCr := .start now }.phase = .awaitConsecutive := hp
    rw [hnext]
    exact .inr ⟨kind, .takeConsecutive⟩

theorem changes_turn (hr : r.Tidy) (now after : Micros) (frame : Option Frame)
    (budget : Budget) (accepted : Bool) :
    (Endpoint.receiver r).Changes (.turn now after frame budget accepted)
      (.receiver ((r.step now frame budget).1.finish accepted after).1.phase) := by
  have does := r.step_does now frame budget
  have written {f : Frame} (hf : (r.step now frame budget).1.frame? = some f) :
      ((Endpoint.receiver r).step now frame budget).1.frame? = some f := by
    dsimp only [Endpoint.step]
    rw [← hf]
    cases (r.step now frame budget).1 <;> rfl
  generalize r.step now frame budget = move at does written ⊢
  cases does with
  | closed | holds | waits => exact .stays
  | expires running => exact .fails running
  | fails running => exact .fails running
  | rejects running => exact .fails running
  | single running timely phase input kind =>
    subst input
    refine .moves (.read kind) ?_
    rw [Endpoint.phase, phase]
    exact .takeSingle
  | first running timely phase input kind =>
    subst input
    refine .moves (.read kind) ?_
    rw [Endpoint.phase, phase]
    exact .takeFirst
  | offers running timely phase =>
    cases accepted with
    | false => exact .stays
    | true =>
      refine .moves (.written (written rfl) (Pdu.pduType?_flowControl _ _ _ _)) ?_
      rw [Endpoint.phase, phase]
      exact .sendFlow
  | consumes running timely phase input =>
    subst input
    rcases ((r.noteReply now).consume_consumes now _).edge phase with failed | ⟨kind, edge⟩
    · rw [show (((r.noteReply now).consume now _).settle.finish accepted after).1.phase =
        .failed from failed]
      exact .fails running
    · exact .moves (.read kind) edge
  | stuck running timely ended => exact absurd ended (not_or.mpr (hr.open_ running))

theorem changes_outcome (hr : r.Tidy) (now : Micros) (ack : Ack) :
    (Endpoint.receiver r).Changes (.outcome now ack) (.receiver (r.onAck now ack).phase) := by
  have learns := r.onAck_learns now ack
  generalize r.onAck now ack = r' at learns ⊢
  cases learns with
  | closed | unasked => exact .stays
  | fails open_ => exact .fails (hr.running open_)
  | confirmed phase =>
    refine .moves .confirmed ?_
    rw [Endpoint.phase, phase]
    exact .flowSent
  | replays phase held =>
    rcases ((r.confirmed now).consume_consumes now _).edge rfl with failed | ⟨kind, edge⟩
    · rw [failed]
      exact .fails (hr.running (by simp [phase]))
    · refine .replays .confirmed held kind ?_ edge
      rw [Endpoint.phase, phase]
      exact .flowSent

theorem Tidy.latched (h : r.Tidy) {result : TransferResult} (hr : r.result = some result)
    (now : Micros) :
    (∀ frame budget, r.step now frame budget = (.rest r (.finished result), budget)) ∧
    ∀ ack, r.onAck now ack = r := by
  refine ⟨fun frame budget => by rw [step, hr], fun ack => ?_⟩
  rcases (h.ended hr).2 with hp | hp <;> simp only [onAck, hp]

end Receiver

namespace Endpoint
variable {r : Endpoint} {result : TransferResult}

theorem changes_react (h : r.Tidy) (input : Input) : r.Changes input (r.react input).phase := by
  cases r with
  | sender s =>
    rw [react_sender]
    cases input with
    | turn now after frame budget accepted =>
      exact Sender.changes_turn h now after frame budget accepted
    | outcome now ack => exact Sender.changes_outcome h now ack
    | blockSize | separation => exact .stays
  | receiver r =>
    rw [react_receiver]
    cases input with
    | turn now after frame budget accepted =>
      exact Receiver.changes_turn h now after frame budget accepted
    | outcome now ack => exact Receiver.changes_outcome h now ack
    | blockSize | separation => exact .stays

def final (r : Endpoint) : Phase × Option TransferResult × List UInt8 :=
      (r.phase, r.result, r.message)

theorem Tidy.final_react (h : r.Tidy) (hr : r.result = some result) (input : Input) :
    (r.react input).final = r.final := by
  cases input with
  | turn now after frame budget accepted =>
    rw [react, step_latched hr]
    rfl
  | outcome now ack =>
    cases r with
    | sender s => exact congrArg (fun s => (sender s).final) ((Sender.Tidy.latched h hr now).2 ack)
    | receiver r =>
      exact congrArg (fun r => (receiver r).final) ((Receiver.Tidy.latched h hr now).2 ack)
  | blockSize | separation => cases r <;> rfl

theorem Tidy.final_run (h : r.Tidy) (hr : r.result = some result) (inputs : List Input) :
    (r.run inputs).final = r.final := by
  induction inputs generalizing r with
  | nil => rfl
  | cons input inputs ih =>
    have hfinal := h.final_react hr input
    have hresult : (r.react input).result = some result := (congrArg (·.2.1) hfinal).trans hr
    exact (ih (kept_tidy.react h input) hresult).trans hfinal

theorem Tidy.quiet (h : r.Tidy) (hr : r.result = some result) :
    ∀ w ∈ r.watches, w.isRunning = false := by
  cases r with
  | sender s =>
    have still := (Sender.Tidy.ended h hr).1
    simp [watches, still.nAs, still.nBs, still.nCs]
  | receiver r =>
    have still := (Receiver.Tidy.ended h hr).1
    simp [watches, still.nAr, still.nBr, still.nCr]

/-- At the end there is a result, which says what the phase says, and there is none before. -/
theorem Tidy.ends (h : r.Tidy) :
    (r.phase.isDone = true ↔ r.result = some (.ok ())) ∧
      (r.phase.isFailed = true ↔ ∃ error, r.result = some (.error error)) := by
  cases r with
  | sender s =>
    cases hp : s.phase with
    | sent =>
      rw [Tidy, Sender.Tidy, hp] at h
      simp [phase, Phase.isDone, Phase.isFailed, result, hp, h.1]
    | failed =>
      rw [Tidy, Sender.Tidy, hp] at h
      obtain ⟨error, he⟩ := h.1
      simp [phase, Phase.isDone, Phase.isFailed, result, hp, he]
    | _ =>
      have hr : s.result = none := Sender.Tidy.running h (by simp [hp])
      simp [phase, Phase.isDone, Phase.isFailed, result, hp, hr]
  | receiver r =>
    cases hp : r.phase with
    | received =>
      rw [Tidy, Receiver.Tidy, hp] at h
      simp [phase, Phase.isDone, Phase.isFailed, result, hp, h.1]
    | failed =>
      rw [Tidy, Receiver.Tidy, hp] at h
      obtain ⟨error, he⟩ := h.1
      simp [phase, Phase.isDone, Phase.isFailed, result, hp, he]
    | _ =>
      have hr : r.result = none := Receiver.Tidy.running h (by simp [hp])
      simp [phase, Phase.isDone, Phase.isFailed, result, hp, hr]

/-- An endpoint keeps to the documented machine, and stays as it is once it has its result. -/
structure Conforming (r : Endpoint) : Prop where
  changes : ∀ input, r.Changes input (r.react input).phase
  latches : (r.phase.isDone || r.phase.isFailed) = r.result.isSome
  succeeded : r.phase.isDone = true ↔ r.result = some (.ok ())
  failed : r.phase.isFailed = true ↔ ∃ error, r.result = some (.error error)
  final : ∀ result, r.result = some result → ∀ inputs,
    (r.run inputs).phase = r.phase ∧ (r.run inputs).result = some result ∧
    (r.run inputs).message = r.message ∧
      (∀ now frame budget, (r.run inputs).step now frame budget =
        (.rest (r.run inputs) (.finished result), budget)) ∧
      ∀ w ∈ (r.run inputs).watches, w.isRunning = false

theorem conforming_of_arises (h : r.Arises) : r.Conforming := by
  have tidy := kept_tidy.arises h
  obtain ⟨succeeded, failed⟩ := tidy.ends
  refine ⟨changes_react tidy, ?_, succeeded, failed, fun result hr inputs => ?_⟩
  · cases hr : r.result with
    | none => simp_all
    | some result => cases result <;> simp_all
  · have hfinal := tidy.final_run hr inputs
    have hresult : (r.run inputs).result = some result := (congrArg (·.2.1) hfinal).trans hr
    have later : (r.run inputs).Tidy := kept_tidy.arises (h.run inputs)
    exact ⟨congrArg (·.1) hfinal, hresult, congrArg (·.2.2) hfinal, step_latched hresult,
      later.quiet hresult⟩

theorem conforming_of_arises_heldBack : ∃ r : Endpoint, r.Arises ∧ r.phase = .receiver .received ∧
    r.message = [0, 1, 2, 3, 4, 5, 6, 7, 8, 9] ∧ r.Conforming := by
  have created : Receiver.create (.physical 0x10 0xF1) 0 .zero ⟨132⟩ =
      .ok (.initial (.physical 0x10 0xF1) 0 .zero, ⟨100⟩) := rfl
  have arises : Arises ((receiver (.initial (.physical 0x10 0xF1) 0 .zero)).run heldBack) :=
    (Arises.receiver created).run heldBack
  exact ⟨_, arises, rfl, rfl, conforming_of_arises arises⟩

end Endpoint
end CanTransport
