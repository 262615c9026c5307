import CanTransport.Proofs.Blocks
import CanTransport.Proofs.Conformance
import CanTransport.Proofs.Patience

/-! # The pace of a sender

A peer says with each go how long to wait between two consecutive frames. From one frame that is
taken to the next at least that long goes by, also where the next belongs to a new block and the
pace has changed meanwhile. Once the pause is over the next step offers the frame.
-/
namespace CanTransport

def pauseOf (code : UInt8) : Micros :=
  if code.toNat ≤ 0x7F then code.toNat * 1000
  else if 0xF1 ≤ code.toNat ∧ code.toNat ≤ 0xF9 then (code.toNat - 0xF0) * 100
  else 127000

theorem SeparationTime.micros_ofByte (code : UInt8) : (ofByte code).micros = pauseOf code := by
  unfold ofByte pauseOf
  simp only [UInt8.le_iff_toNat_le]
  change (if code.toNat ≤ 127 then _ else if 241 ≤ code.toNat ∧ code.toNat ≤
    249 then _ else _ : SeparationTime).micros = _
  split
  · rfl
  · split
    · next special =>
      have hsub : (code - 0xF0).toNat = code.toNat - 0xF0 :=
        UInt8.toNat_sub_of_le _ _ (UInt8.le_iff_toNat_le.mpr (Nat.le_of_succ_le special.1))
      simp only [micros, hsub]
    · rfl

/-- What matters for the pace: a go, with the code of the separation time, and a consecutive frame
that is taken between two readings of the clock. -/
inductive Beat
  | go (code : UInt8)
  | taken (offered after : Micros)
deriving DecidableEq

def Beat.code? : Beat → Option UInt8
  | go code => some code
  | taken _ _ => none

def Beat.after? : Beat → Option Micros
  | go _ => none
  | taken _ after => some after

def askedIn (beats : List Beat) : Option UInt8 := (beats.filterMap Beat.code?).getLast?

def lastIn (beats : List Beat) : Option Micros := (beats.filterMap Beat.after?).getLast?

section Beats
variable (beats : List Beat) (code : UInt8) (offered after : Micros)

@[simp] theorem askedIn_go :
    askedIn (beats ++ [.go code]) = some code := by simp [askedIn, Beat.code?]

@[simp] theorem askedIn_taken :
    askedIn (beats ++ [.taken offered after]) = askedIn beats := by simp [askedIn, Beat.code?]

@[simp] theorem lastIn_go :
    lastIn (beats ++ [.go code]) = lastIn beats := by simp [lastIn, Beat.after?]

@[simp] theorem lastIn_taken :
    lastIn (beats ++ [.taken offered after]) = some after := by simp [lastIn, Beat.after?]

end Beats

/-- The pause that was asked for last has gone by at a reading of the clock since the last frame was
taken. -/
def Rested (beats : List Beat) (now : Micros) : Prop :=
  ∀ last, lastIn beats = some last → ∃ code, askedIn beats = some code ∧ last + pauseOf code ≤ now

/-- Each frame has been offered after the pause. -/
def Paced (beats : List Beat) : Prop :=
  ∀ earlier offered after later, beats = earlier ++ .taken offered after :: later →
    Rested earlier offered

theorem paced_nil : Paced [] := fun earlier _ _ _ he => by simp at he

theorem Paced.append {beats : List Beat} (h : Paced beats) {beat : Beat}
    (rested : ∀ offered after, beat = .taken offered after → Rested beats offered) :
    Paced (beats ++ [beat]) := by
  intro earlier offered after later he
  rcases List.eq_nil_or_concat later with rfl | ⟨later, last, rfl⟩
  · obtain ⟨rfl, rfl⟩ := List.append_singleton_inj.mp he
    exact rested offered after rfl
  · rw [List.concat_eq_append, ← List.cons_append, ← List.append_assoc] at he
    exact h earlier offered after later (List.append_singleton_inj.mp he).1

structure Pace where
  sender : Sender
  beats : List Beat := []

namespace Sender
variable {s s' : Sender} {now after : Micros} {frame : Option Frame}
  {budget : Budget} {accepted : Bool}

/-- The beat of a turn: a go that is taken in, or a consecutive frame that is taken. -/
def beatIn (s : Sender) : Endpoint.Input → Option Beat
  | .turn now after frame _ accepted =>
    if s.hears now frame = some .continueToSend then frame.map fun f => .go (f.byte 2)
    else if accepted = true ∧ (s.step now frame).frame?.any (·.pduType? = some .consecutiveFrame) =
      true then
      some (.taken now after)
    else none
  | .outcome _ _ | .blockSize _ | .separation _ => none

def Underway (s : Sender) : Prop := s.phase = .sendConsecutive ∨ s.phase = .awaitConsecutiveAck

theorem beatIn_eq_none (deaf : s.hears now frame ≠ some .continueToSend)
    (mute : accepted = true → (s.step now frame).frame?.any (·.pduType? = some .consecutiveFrame) =
      false) :
    s.beatIn (.turn now after frame budget accepted) = none := by
  rw [beatIn, if_neg deaf, if_neg fun ⟨ha, hf⟩ => Bool.false_ne_true ((mute ha).symm.trans hf)]

/-- When a frame may be offered the pause is over. -/
theorem dueAt_le (phase : s.phase = .sendConsecutive) {last : Micros}
    (hl : s.lastFrameAt = some last) (due : s.dueAt.any (now < ·) = false) :
    last + s.separation.micros ≤ now := by
  have hd : s.dueAt = some (last + s.separation.micros) := by simp only [dueAt, phase, hl]
  simpa [hd] using due

end Sender

namespace Pace
variable {x : Pace} {s : Sender}

def react (x : Pace) (input : Endpoint.Input) : Pace where
  sender := x.sender.react input
  beats := x.beats ++ (x.sender.beatIn input).toList

def run (x : Pace) (inputs : List Endpoint.Input) : Pace := inputs.foldl react x

/-- The sender keeps in mind when its last frame was taken. While a block is under way it knows the
pace, and it does not wait for flow control. -/
structure Steady (x : Pace) : Prop where
  tidy : x.sender.Tidy
  paced : Paced x.beats
  last : x.sender.lastFrameAt = lastIn x.beats
  asked : x.sender.Underway → ∃ code, askedIn x.beats = some code ∧
    x.sender.separation = .ofByte code
  unasking : x.sender.Underway → x.sender.nBs.isRunning = false

theorem Steady.pass (h : x.Steady) (tidy : s.Tidy) (last : s.lastFrameAt = x.sender.lastFrameAt)
    (underway : s.Underway → x.sender.Underway ∧ s.separation = x.sender.separation ∧
      s.nBs = x.sender.nBs) :
    Steady { sender := s, beats := x.beats } where
  tidy := tidy
  paced := h.paced
  last := last.trans h.last
  asked hs := by
    obtain ⟨code, hc, hsep⟩ := h.asked (underway hs).1
    exact ⟨code, hc, (underway hs).2.1.trans hsep⟩
  unasking hs := by
    rw [(underway hs).2.2]
    exact h.unasking (underway hs).1

theorem Steady.leave (h : x.Steady) (phase : SenderPhase) (tidy : s.Tidy)
    (last : s.lastFrameAt = x.sender.lastFrameAt) (hp : s.phase = phase)
    (outside : phase ≠ .sendConsecutive ∧ phase ≠ .awaitConsecutiveAck) :
    Steady { sender := s, beats := x.beats } :=
  h.pass tidy last fun underway => absurd (hp ▸ underway) (not_or.mpr outside)

theorem Steady.resume (h : x.Steady) (now : Micros) (size code : UInt8)
    (running : x.sender.result = none) :
    Steady { sender := (x.sender.notePace now).resume now size (.ofByte code), beats := x.beats ++ [.go code] } where
  tidy := running
  paced := h.paced.append nofun
  last := by
    rw [lastIn_go]
    exact h.last
  asked _ := ⟨code, askedIn_go x.beats code, rfl⟩
  unasking _ := rfl

theorem Steady.take (h : x.Steady) {now after : Micros} (phase : x.sender.phase = .sendConsecutive)
    (due : x.sender.dueAt.any (now < ·) = false) (tidy : s.Tidy) (last : s.lastFrameAt = some after)
    (separation : s.separation = x.sender.separation) (watch : s.nBs = x.sender.nBs) :
    Steady { sender := s, beats := x.beats ++ [.taken now after] } where
  tidy := tidy
  paced := h.paced.append fun offered after he at_ hl => by
    obtain ⟨rfl, rfl⟩ := Beat.taken.inj he
    obtain ⟨code, hc, hsep⟩ := h.asked (.inl phase)
    refine ⟨code, hc, ?_⟩
    rw [← SeparationTime.micros_ofByte, ← hsep]
    exact Sender.dueAt_le phase (h.last.trans hl) due
  last := by rw [lastIn_taken, last]
  asked _ := by
    rw [askedIn_taken, separation]
    exact h.asked (.inl phase)
  unasking _ := by
    rw [watch]
    exact h.unasking (.inl phase)

theorem Steady.turn (h : x.Steady) (now after : Micros) (frame : Option Frame)
    (budget : Budget) (accepted : Bool) :
    (x.react (.turn now after frame budget accepted)).Steady := by
  have does := x.sender.step_does now frame
  have tidy : ((x.sender.step now frame).finish accepted after).1.Tidy := does.tidy h.tidy
  have silent (deaf : x.sender.hears now frame ≠ some .continueToSend)
      (mute : accepted = true →
        (x.sender.step now frame).frame?.any (·.pduType? = some .consecutiveFrame) = false) :
      x.beats ++ (x.sender.beatIn (.turn now after frame budget accepted)).toList = x.beats := by
    rw [Sender.beatIn_eq_none deaf mute, Option.toList_none, List.append_nil]
  rw [react, Sender.react]
  generalize hm : x.sender.step now frame = move at does tidy silent ⊢
  cases does with
  | closed latched =>
    rw [silent (by simp [Sender.hears, latched]) fun _ => rfl]
    exact h
  | expires running expired =>
    rw [silent (by simp [Sender.hears, expired]) fun _ => rfl]
    exact h.leave .failed tidy rfl rfl (by decide)
  | fails running timely reason =>
    rw [silent (by rcases reason.hears.2 with hears | hears <;> rw [hears] <;> decide) fun _ => rfl]
    exact h.leave .failed tidy rfl rfl (by decide)
  | offers running timely due sends =>
    have deaf : x.sender.hears now frame ≠ some .continueToSend := by simp [sends.unheard]
    cases accepted with
    | false =>
      rw [silent deaf fun taken => absurd taken Bool.false_ne_true]
      exact h.pass tidy rfl fun underway => ⟨underway, rfl, rfl⟩
    | true =>
      cases sends with
      | single phase form =>
        rw [silent deaf fun _ => by
          simp [Sender.transmit, Move.frame?, Pdu.pduType?_singleFrame form]]
        exact h.leave .awaitSingleAck tidy rfl rfl (by decide)
      | first phase form =>
        rw [silent deaf fun _ => by
          simp [Sender.transmit, Move.frame?, Pdu.pduType?_firstFrame form]]
        exact h.leave .awaitFirstAck tidy rfl rfl (by decide)
      | consecutive phase form =>
        have beat : x.sender.beatIn (.turn now after frame budget true) =
            some (.taken now after) := by
          rw [Sender.beatIn, if_neg deaf, hm]
          simp [Sender.transmit, Move.frame?, Pdu.pduType?_consecutiveFrame form]
        rw [beat]
        exact h.take phase due tidy rfl rfl rfl
  | pauses running timely paced early =>
    rw [silent (by simp [Sender.unheard_of_dueAt paced]) fun _ => rfl]
    exact h.pass tidy rfl fun underway => ⟨underway, rfl, rfl⟩
  | waits running timely idle =>
    rw [silent (by simp [Sender.unheard_of_idle idle]) fun _ => rfl]
    exact h.pass tidy rfl fun underway => ⟨underway, rfl, rfl⟩
  | resumes input heard =>
    next f =>
    have beat : x.sender.beatIn (.turn now after frame budget accepted) =
        some (.go (f.byte 2)) := by
      rw [Sender.beatIn, if_pos heard, input, Option.map_some]
    rw [beat]
    exact h.resume now (f.byte 1) (f.byte 2) (Sender.running_of_hears heard).1
  | postpones heard within =>
    rw [silent (by rw [heard]; decide) fun _ => rfl]
    exact h.leave .awaitFlow tidy rfl rfl (by decide)
  | overruns heard beyond =>
    rw [silent (by rw [heard]; decide) fun _ => rfl]
    exact h.leave .failed tidy rfl rfl (by decide)
  | stuck running timely ended => exact absurd ended (not_or.mpr (h.tidy.open_ running))

theorem Steady.outcome (h : x.Steady) (now : Micros) (ack : Ack) :
    (x.react (.outcome now ack)).Steady := by
  have learns := x.sender.onAck_learns now ack
  have tidy := learns.tidy h.tidy
  rw [react, Sender.react, Sender.beatIn, Option.toList_none, List.append_nil]
  generalize x.sender.onAck now ack = s at learns tidy ⊢
  cases learns with
  | closed => exact h
  | fails => exact h.leave .failed tidy rfl rfl (by decide)
  | single | last => exact h.leave .sent tidy rfl rfl (by decide)
  | first => exact h.leave .awaitFirstFlow tidy rfl rfl (by decide)
  | block => exact h.leave .awaitFlow tidy rfl rfl (by decide)
  | next phase => exact h.pass tidy rfl fun _ => ⟨.inr phase, rfl, rfl⟩

theorem Steady.react (h : x.Steady) (input : Endpoint.Input) : (x.react input).Steady := by
  cases input with
  | turn now after frame budget accepted => exact h.turn now after frame budget accepted
  | outcome now ack => exact h.outcome now ack
  | blockSize | separation =>
    rw [Pace.react, Sender.react, Sender.beatIn, Option.toList_none, List.append_nil]
    exact h

theorem Steady.run (h : x.Steady) (inputs : List Endpoint.Input) : (x.run inputs).Steady := by
  induction inputs generalizing x with
  | nil => exact h
  | cons input inputs ih => exact ih (h.react input)

theorem steady_initial (address : Address) (message : List UInt8) (kind : MessageType)
    (limit : Option UInt8) :
    Steady { sender := .initial address message kind limit } := by
  have idle : ¬(Sender.initial address message kind limit).Underway := by
    rcases Sender.phase_initial address message kind limit with hp | hp <;>
      simp [Sender.Underway, hp]
  exact ⟨Sender.tidy_initial address message kind limit, paced_nil, rfl, fun h =>
    absurd h idle, fun h => absurd h idle⟩

/-- While its next frame is to be sent, a step offers it exactly if the scheduler would have called
it, unless an earlier offer has been made in vain for too long. -/
theorem Steady.offers_iff (h : x.Steady) {now : Micros} (frame : Option Frame)
    (phase : x.sender.phase = .sendConsecutive)
    (timely : x.sender.nAs.exceeded now Timing.confirmLimit = false) :
    (∃ f, (x.sender.step now frame).frame? = some f ∧ f.pduType? = some .consecutiveFrame) ↔
      (Endpoint.sender x.sender).isDue now = true := by
  have running : x.sender.result = none := h.tidy.running (by simp [phase])
  have unexpired : x.sender.expired? now = none := by
    simp [Sender.expired?, timely, Stopwatch.exceeded_of_stopped (h.unasking (.inl phase))]
  have sending : x.sender.step now frame = (x.sender.notePace now).sendConsecutive now := by
    rw [Sender.step_timely running unexpired]
    simp only [Sender.act, show (x.sender.notePace now).phase = .sendConsecutive from phase]
  have due : (Endpoint.sender x.sender).isDue now =
      !(x.sender.notePace now).dueAt.any (now < ·) := by
    change x.sender.dueAt.all (· ≤ now) = !x.sender.dueAt.any (now < ·)
    cases x.sender.dueAt with
    | none => rfl
    | some due => simp [← decide_not]
  rw [sending, due]
  unfold Sender.sendConsecutive
  split
  · next early => simp [early, Move.frame?]
  · next ready =>
    obtain ⟨f, hf, -, hkind, -⟩ := Pdu.consecutiveFrame?_spec (x.sender.notePace now).address
      (x.sender.notePace now).sequence (x.sender.notePace now).chunk (List.length_take_le _ _)
    rw [hf]
    simp [ready, Sender.transmit, Move.frame?, hkind]

/-- Whatever a sender is given and whenever it is called, each consecutive frame is offered only
after the pause that was asked for last has gone by since the one before it was taken; and while the
next is to be sent, a step offers it as soon as it is due, unless the controller has refused it for
too long. -/
theorem paced_run {address : Address} {message : List UInt8} {kind : MessageType}
    {limit : Option UInt8} {budget rest : Budget}
    (h : Sender.create address message kind limit budget = .ok (s, rest))
    (inputs : List Endpoint.Input) :
    Paced (run { sender := s } inputs).beats ∧
    ∀ (now : Micros) (frame : Option Frame), (run { sender := s } inputs).sender.phase =
      .sendConsecutive → (run { sender := s } inputs).sender.nAs.exceeded now Timing.confirmLimit =
        false →
      ((∃ f, ((run { sender := s } inputs).sender.step now frame).frame? = some f ∧ f.pduType? =
        some .consecutiveFrame) ↔ (Endpoint.sender (run { sender := s } inputs).sender).isDue now =
          true) := by
  obtain rfl := Sender.create_ok h
  have steady := (steady_initial address message kind limit).run inputs
  exact ⟨steady.paced, fun now frame phase timely => steady.offers_iff frame phase timely⟩

def goOne (code : UInt8) : Frame :=
  { Pdu.flowControl (.physical 0xF1 0x10) .continueToSend 1 .zero with data := [0x30, 1, code, 0, 0, 0, 0, 0] }

def twentyBytes : List UInt8 := (List.range 20).map UInt8.ofNat

def twenty : Sender := .initial (.physical 0x10 0xF1) twentyBytes .diagnostics none

def reserved : List Endpoint.Input :=
  [.turn 0 0 none ⟨948⟩ true, .outcome 0 .success, .turn 900 900 (some (goOne 20)) ⟨948⟩ true,
    .turn 1000 1010 none ⟨948⟩ true, .outcome 1020 .success, .turn 2000 2000 (some (goOne 0x80))
    ⟨948⟩ true, .turn 128009 128009 none ⟨948⟩ true, .turn 128010 128010 none ⟨948⟩ false]

theorem paced_run_reserved :
    Sender.create (.physical 0x10 0xF1) twentyBytes .diagnostics none ⟨1000⟩ = .ok (twenty, ⟨948⟩) ∧
      (run { sender := twenty } reserved).sender.phase = .sendConsecutive ∧
      (run { sender := twenty } reserved).sender.nAs.exceeded 128020 Timing.confirmLimit = false ∧
      (∃ f, ((run { sender := twenty } reserved).sender.step 128020 none).frame? = some f ∧
        f.pduType? = some .consecutiveFrame) ∧
      (run { sender := twenty } (reserved ++ [.turn 128020 128030 none ⟨948⟩ true])).beats =
        [.go 20, .taken 1000 1010, .go 0x80, .taken 128020 128030] ∧
      Paced (run { sender := twenty }
        (reserved ++ [.turn 128020 128030 none ⟨948⟩ true])).beats := by
  have created : Sender.create (.physical 0x10 0xF1) twentyBytes .diagnostics none ⟨1000⟩ =
      .ok (twenty, ⟨948⟩) := rfl
  have phase : (run { sender := twenty } reserved).sender.phase = .sendConsecutive := by decide
  have timely : (run { sender := twenty } reserved).sender.nAs.exceeded 128020 Timing.confirmLimit =
      false := by decide
  have due : (Endpoint.sender (run { sender := twenty } reserved).sender).isDue 128020 = true := by
    decide
  have paced := (paced_run created (reserved ++ [.turn 128020 128030 none ⟨948⟩ true])).1
  exact ⟨created, phase, timely, ((paced_run created reserved).2 128020 none phase timely).mpr
    due, by decide, paced⟩

end Pace
end CanTransport
