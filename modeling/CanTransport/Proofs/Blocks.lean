import CanTransport.Proofs.Opening
import CanTransport.Proofs.Emission

/-! # Blocks

The consecutive frames between one flow control and the next make a block. The sender sends them one
after the other and then waits for flow control; the receiver takes them in and then owes it. Both
count the frames on their own.
-/
namespace CanTransport

/-- Consecutive frames, and the settings of the flow control that let them go. -/
structure Block where
  size : UInt8
  separation : SeparationTime
  frames : List Frame := []

namespace Block

def written (address : Address) (b : Block) : List Frame :=
  Pdu.flowControl address.reversed .continueToSend b.size b.separation :: b.frames

def Complete (b : Block) : Prop := b.size ≠ 0 ∧ b.frames.length = b.size.toNat

def Within (b : Block) : Prop := b.size ≠ 0 → b.frames.length ≤ b.size.toNat

theorem Complete.within {b : Block} (h : b.Complete) : b.Within := fun _ => Nat.le_of_eq h.2

theorem Complete.frames_ne_nil {b : Block} (h : b.Complete) : b.frames ≠ [] := by
  intro hnil
  have hlength := h.2
  rw [hnil] at hlength
  exact h.1 (UInt8.toNat_inj.mp hlength.symm)

theorem size_eq_zero_or_pos (size : UInt8) : size = 0 ∨ 0 < size.toNat := by
  by_cases hz : size = 0
  · exact .inl hz
  · exact .inr (Nat.pos_of_ne_zero fun h0 => hz (UInt8.toNat_inj.mp h0))

/-- A count that does not pass the block size is not lost in a byte. -/
theorem size_le_ofNat_iff {size : UInt8} {n : Nat} (h : n ≤ size.toNat) :
    size ≤ UInt8.ofNat n ↔ n = size.toNat := by
  have hbyte := size.toNat_lt
  rw [UInt8.le_iff_toNat_le, UInt8.toNat_ofNat', Nat.mod_eq_of_lt (by omega)]
  omega

end Block

namespace Sender
variable {s : Sender} {b : Block} {last : Option Block} {unheard : Nat} {sent : List Frame}
  {now after : Micros}

structure Obeys (s : Sender) (b : Block) : Prop where
  size : s.blockSize = b.size
  separation : s.separation = b.separation

inductive Asks (s : Sender) (last : Option Block) : Nat → Prop
  | announced (phase : s.phase = .awaitFirstAck) : Asks s last 1
  | ready (phase : s.phase = .awaitFirstFlow) : Asks s last 0
  | spent {b : Block} (phase : s.phase = .awaitConsecutiveAck) (more : s.offset < s.message.length)
    (full : s.blockComplete = true) (current : last = some b) (obeys : s.Obeys b) : Asks s last 1
  | again (phase : s.phase = .awaitFlow) : Asks s last 0

/-- Where the sender is in a block. -/
inductive Stance (s : Sender) (b : Block) : Nat → Prop
  | sending (phase : s.phase = .sendConsecutive)
      (room : b.size = 0 ∨ b.frames.length < b.size.toNat) : Stance s b 0
  | waiting (phase : s.phase = .awaitConsecutiveAck) (begun : b.frames ≠ []) : Stance s b 1
  | spent (phase : s.phase = .awaitFlow) (full : b.Complete) : Stance s b 0
  | through (phase : s.phase = .sent) : Stance s b 0

/-- The frames of the block are sent one after the other, each once the one before is heard of. -/
structure Works (s : Sender) (b : Block) (unheard : Nat) : Prop where
  stance : s.Stance b unheard
  obeys : s.Obeys b
  count : s.framesInBlock = UInt8.ofNat b.frames.length
  within : b.Within

inductive Ends (s : Sender) (b : Block) : Nat → Prop
  | unheard (phase : s.phase = .awaitConsecutiveAck) (all : s.message.length ≤ s.offset)
      (obeys : s.Obeys b)
    (begun : b.frames ≠ []) : Ends s b 1
  | heard (phase : s.phase = .sent) : Ends s b 0

theorem step_timely (hr : s.result = none) (ht : s.expired? now = none) (frame : Option Frame) :
    s.step now frame = (s.notePace now).act now frame := by
  rw [step, hr, ht]

theorem step_over (hr : s.result = some (.ok ())) (frame : Option Frame) :
    s.step now frame = .rest s (.finished (.ok ())) := by
  rw [step, hr]

theorem step_waiting (hw : s.awaitsOutcome = true ∨ s.isAwaiting = true) (hr : s.result = none)
    (ht : s.expired? now = none) : s.step now none = .rest (s.notePace now) .inProgress := by
  have hp : (s.notePace now).phase = s.phase := rfl
  rw [step_timely hr ht]
  cases phase : s.phase with
  | awaitSingleAck | awaitFirstAck | awaitFirstFlow | awaitConsecutiveAck | awaitFlow =>
    simp only [act, hp, phase]
  | sendSingle | sendFirst | sendConsecutive | sent | failed =>
    simp [awaitsOutcome, isAwaiting, phase] at hw

theorem Asks.rests (h : s.Asks last unheard) (hr : s.result = none) (ht : s.expired? now = none) :
    s.step now none = .rest (s.notePace now) .inProgress := by
  refine step_waiting ?_ hr ht
  cases h with
  | announced phase | spent phase => exact .inl (by simp [awaitsOutcome, phase])
  | ready phase | again phase => exact .inr (by simp [isAwaiting, phase])

theorem Asks.running (h : s.Asks last unheard) (he : s.Emitted sent) : s.result = none := by
  cases h with
  | announced phase | ready phase | spent phase | again phase =>
    exact he.running.mpr (by simp [phase])

theorem Asks.phase_ne (h : s.Asks last unheard) :
    s.phase ≠ .sendConsecutive ∧ s.phase ≠ .failed := by
  cases h with
  | announced phase | ready phase | spent phase | again phase => simp [phase]

/-- A sender that still waits to hear of a frame of a block goes by the settings of that block. -/
theorem Asks.obeys (h : s.Asks last unheard) (hp : s.phase = .awaitConsecutiveAck) :
    ∃ b, last = some b ∧ s.Obeys b := by
  cases h with
  | spent _ _ _ current obeys => exact ⟨_, current, obeys⟩
  | announced phase | ready phase | again phase => exact absurd (phase.symm.trans hp) nofun

theorem Asks.notePace (h : s.Asks last unheard) (now : Micros) :
    (s.notePace now).Asks last unheard := by
  cases h with
  | announced phase => exact .announced phase
  | ready phase => exact .ready phase
  | spent phase more full current obeys =>
    exact .spent phase more full current ⟨obeys.size, obeys.separation⟩
  | again phase => exact .again phase

theorem Asks.hear (h : s.Asks last unheard) (hu : 0 < unheard) (now : Micros) :
    (s.onAck now .success).Asks last (unheard - 1) := by
  cases h with
  | announced phase => exact .ready (by simp [onAck, phase])
  | spent phase more full current obeys =>
    rw [onAck_block phase (Nat.not_le.mpr more) full]
    exact .again rfl
  | ready | again => exact absurd hu (Nat.lt_irrefl 0)

theorem Asks.heeds (h : s.Asks last unheard) (ha : s.isAwaiting = true) (hr : s.result = none)
    (ht : s.expired? now = none) (address : Address) (size : UInt8) {separation : SeparationTime}
    (hv : separation.isValid = true) : unheard = 0 ∧
      s.step now (some (Pdu.flowControl address.reversed .continueToSend size separation)) =
        .rest ((s.notePace now).resume now size separation) .inProgress := by
  have hawaits : (s.notePace now).isAwaiting = true := ha
  refine ⟨?_, ?_⟩
  · cases h with
    | announced phase | spent phase => simp [isAwaiting, phase] at ha
    | ready | again => rfl
  · rw [step_timely hr ht, act_awaiting hawaits, takeFlowControl_go address size hv]

theorem works_resume (s : Sender) (now : Micros) (hb : b.frames = []) :
    (s.resume now b.size b.separation).Works b 0 where
  stance := .sending rfl (by
    rw [hb]
    exact Block.size_eq_zero_or_pos b.size)
  obeys := ⟨rfl, rfl⟩
  count := by
    rw [hb]
    rfl
  within _ := by
    rw [hb]
    exact Nat.zero_le _

/-- The sender has sent as many frames as were asked for if and only if it takes the block to be
complete. -/
theorem Works.complete_iff (h : s.Works b unheard) : s.blockComplete = true ↔ b.Complete := by
  rw [blockComplete, decide_eq_true_iff, h.obeys.size, h.count, Block.Complete]
  exact and_congr_right fun hz => Block.size_le_ofNat_iff (h.within hz)

theorem Works.step (h : s.Works b unheard) (he : s.Emitted sent) (ht : s.expired? now = none)
    (accepted : Bool) :
    ((s.step now none).finish accepted after).1.Works
      { b with frames := b.frames ++ (s.step now none).written accepted }
      (unheard + ((s.step now none).written accepted).length) := by
  have hp : (s.notePace now).phase = s.phase := rfl
  have rests : ∀ {s' : Sender} {outcome : StepOutcome}, s.step now none = .rest s' outcome →
      s'.Works b unheard → ((s.step now none).finish accepted after).1.Works
        { b with frames := b.frames ++ (s.step now none).written accepted }
        (unheard + ((s.step now none).written accepted).length) := by
    intro s' outcome hs hw
    rw [hs, Move.written_rest, Move.finish_rest, List.append_nil]
    exact hw
  obtain ⟨stance, obeys, count, within⟩ := h
  cases stance with
  | sending phase room =>
    have hr : s.result = none := he.running.mpr (by simp [phase])
    obtain ⟨f, hf, -⟩ :=
      Pdu.consecutiveFrame?_spec s.address s.sequence s.chunk (List.length_take_le _ _)
    have hs : s.step now none = (s.notePace now).sendConsecutive now := by
      rw [step_timely hr ht]
      simp only [act, hp, phase]
    by_cases hd : (s.notePace now).dueAt.any (now < ·) = true
    · refine rests (hs.trans (if_pos hd))
        ⟨.sending phase room, ⟨obeys.size, obeys.separation⟩, count, within⟩
    · have hframe : Pdu.consecutiveFrame? (s.notePace now).address (s.notePace now).sequence
          (s.notePace now).chunk =
          some f := hf
      rw [hs, sendConsecutive, if_neg hd, hframe]
      dsimp only [transmit, Move.written_write, Move.finish_write]
      cases accepted with
      | false =>
        rw [if_neg Bool.false_ne_true, if_neg Bool.false_ne_true, List.append_nil]
        exact ⟨.sending phase room, ⟨obeys.size, obeys.separation⟩, count, within⟩
      | true =>
        refine ⟨.waiting rfl (by simp), ⟨obeys.size, obeys.separation⟩, ?_, fun hz => ?_⟩
        · change s.framesInBlock + 1 = UInt8.ofNat (b.frames ++ [f]).length
          rw [count, List.length_append, UInt8.ofNat_add]
          rfl
        · change (b.frames ++ [f]).length ≤ b.size.toNat
          rw [List.length_append]
          exact room.resolve_left hz
  | waiting phase begun =>
    have hs := step_waiting (.inl (by simp [awaitsOutcome, phase]))
        (he.running.mpr (by simp [phase])) ht
    exact rests hs ⟨.waiting phase begun, ⟨obeys.size, obeys.separation⟩, count, within⟩
  | spent phase full =>
    have hs := step_waiting (.inr (by simp [isAwaiting, phase]))
        (he.running.mpr (by simp [phase])) ht
    exact rests hs ⟨.spent phase full, ⟨obeys.size, obeys.separation⟩, count, within⟩
  | through phase =>
    exact rests (step_over (he.succeeded.mpr phase) none) ⟨.through phase, obeys, count, within⟩

/-- Once a frame is heard of, the block goes on, is complete, or the message is. -/
theorem Works.hear (h : s.Works b unheard) (hu : 0 < unheard) (now : Micros) :
    (s.onAck now .success).Works b (unheard - 1) := by
  have hcomplete := h.complete_iff
  obtain ⟨stance, obeys, count, within⟩ := h
  cases stance with
  | waiting phase begun =>
    by_cases hd : s.message.length ≤ s.offset
    · rw [onAck_last phase hd]
      exact ⟨.through rfl, ⟨obeys.size, obeys.separation⟩, count, within⟩
    · by_cases hb : s.blockComplete = true
      · rw [onAck_block phase hd hb]
        exact ⟨.spent rfl (hcomplete.mp hb), ⟨obeys.size, obeys.separation⟩, count, within⟩
      · rw [onAck_more phase hd hb]
        refine ⟨.sending rfl (Classical.or_iff_not_imp_left.mpr fun hz => ?_),
          ⟨obeys.size, obeys.separation⟩, count, within⟩
        exact Nat.lt_of_le_of_ne (within hz) fun he => hb (hcomplete.mpr ⟨hz, he⟩)
  | sending | spent | through => exact absurd hu (Nat.lt_irrefl 0)

theorem Works.asks (h : s.Works b unheard) (hc : b.Complete)
    (hm : s.phase = .awaitConsecutiveAck → s.offset < s.message.length) (hns : s.phase ≠ .sent) :
    s.Asks (some b) unheard := by
  have hcomplete := h.complete_iff.mpr hc
  obtain ⟨stance, obeys, count, within⟩ := h
  cases stance with
  | sending phase room =>
    rcases room with hz | hlt
    · exact absurd hz hc.1
    · exact absurd hc.2 (Nat.ne_of_lt hlt)
  | waiting phase begun => exact .spent phase (hm phase) hcomplete rfl obeys
  | spent phase full => exact .again phase
  | through phase => exact absurd phase hns

theorem Works.ends (h : s.Works b unheard) (he : s.Emitted sent)
    (hm : s.isUnderWay = true ∨ s.phase = .awaitConsecutiveAck → ¬ s.offset < s.message.length) :
    s.Ends b unheard := by
  obtain ⟨stance, obeys, -, -⟩ := h
  cases stance with
  | sending phase | spent phase =>
    have hu : s.isUnderWay = true := by simp [isUnderWay, phase]
    exact absurd (he.unfinished hu) (hm (.inl hu))
  | waiting phase begun => exact .unheard phase (Nat.le_of_not_lt (hm (.inr phase))) obeys begun
  | through phase => exact .heard phase

theorem Works.phase_ne (h : s.Works b unheard) : s.phase ≠ .failed := by
  cases h.stance with
  | sending phase | waiting phase | spent phase | through phase => simp [phase]

theorem Works.begun (h : s.Works b unheard) (hp : s.phase = .awaitConsecutiveAck) :
    b.frames ≠ [] := by
  cases h.stance with
  | waiting _ begun => exact begun
  | sending phase | spent phase | through phase => exact absurd (phase.symm.trans hp) nofun

theorem Ends.phase_ne (h : s.Ends b unheard) : s.phase ≠ .sendConsecutive ∧ s.phase ≠ .failed := by
  cases h with
  | unheard phase | heard phase => simp [phase]

theorem Ends.obeys (h : s.Ends b unheard) (hp : s.phase = .awaitConsecutiveAck) :
    b.frames ≠ [] ∧ s.Obeys b := by
  cases h with
  | unheard _ _ obeys begun => exact ⟨begun, obeys⟩
  | heard phase => exact absurd (phase.symm.trans hp) nofun

theorem Ends.step (h : s.Ends b unheard) (he : s.Emitted sent) (ht : s.expired? now = none) :
    ∃ s' outcome, s.step now none = .rest s' outcome ∧ s'.Ends b unheard := by
  cases h with
  | unheard phase all obeys begun =>
    have hs := step_waiting (.inl (by simp [awaitsOutcome, phase]))
        (he.running.mpr (by simp [phase])) ht
    exact ⟨_, _, hs, .unheard phase all ⟨obeys.size, obeys.separation⟩ begun⟩
  | heard phase => exact ⟨s, _, step_over (he.succeeded.mpr phase) none, .heard phase⟩

theorem Ends.hear (h : s.Ends b unheard) (hu : 0 < unheard) (now : Micros) :
    (s.onAck now .success).Ends b (unheard - 1) := by
  cases h with
  | unheard phase all obeys begun =>
    rw [onAck_last phase all]
    exact .heard rfl
  | heard => exact absurd hu (Nat.lt_irrefl 0)

end Sender

namespace Receiver
open Pdu

variable {address : Address} {message : List UInt8} {r : Receiver} {b : Block}
  {count taken unheard : Nat} {now after : Micros} {budget : Budget} {f : Frame}

/-- So many consecutive frames of the message have come, and more are to come. -/
structure Collects (address : Address) (message : List UInt8) (r : Receiver) (count : Nat) :
    Prop where
  target : r.address = address
  valid : r.separation.isValid = true
  running : r.result = none
  gathered : r.Gathered message count count
  more : carried message.length + chunkSize * count < message.length

structure Owes (address : Address) (message : List UInt8) (r : Receiver) (count : Nat) : Prop
    extends Collects address message r count where
  phase : r.phase = .sendFlow
  held : r.held = none

/-- Whether the flow control has been heard of; before that a frame may be held back, and none is
taken in. -/
inductive Hearing (r : Receiver) (taken : Nat) : Nat → Prop
  | unheard (phase : r.phase = .awaitFlowAck) (none : taken = 0) : Hearing r taken 1
  | heard (phase : r.phase = .awaitConsecutive) (held : r.held = .none) : Hearing r taken 0

/-- The receiver waits for frames of a block, so many of which it has taken in. -/
structure Listens (address : Address) (message : List UInt8) (r : Receiver) (b : Block)
    (count taken unheard : Nat) :
    Prop extends Collects address message r count where
  hearing : r.Hearing taken unheard
  size : r.sentBlockSize = b.size
  separation : r.sentSeparation = b.separation
  counted : r.framesInBlock = UInt8.ofNat taken
  room : b.size = 0 ∨ taken < b.size.toNat

/-- How the receiver stands after one more frame. -/
inductive Onward (address : Address) (message : List UInt8) (r : Receiver) (b : Block)
    (count taken : Nat) : Prop
  | received (all : message.length ≤ carried message.length + chunkSize * (count + 1))
      (phase : r.phase = .received)
    (result : r.result = some (.ok ())) (held : r.held = none) (bytes : r.message = message)
  | spent (size : b.size ≠ 0) (full : taken + 1 = b.size.toNat)
      (owes : r.Owes address message (count + 1))
  | listening (listens : r.Listens address message b (count + 1) (taken + 1) 0)

theorem Onward.held_eq (h : r.Onward address message b count taken) : r.held = none := by
  cases h with
  | received _ _ _ held => exact held
  | spent _ _ owes => exact owes.held
  | listening listens => cases listens.hearing with | heard _ held => exact held

theorem step_timely (hr : r.result = none) (ht : r.expired? now = none) (frame : Option Frame)
    (budget : Budget) :
    r.step now frame budget = (r.noteReply now).act now frame budget := by
  rw [step, hr, ht]

theorem Collects.congr {r' : Receiver} (h : r.Collects address message count)
    (ha : r'.address = r.address) (hv : r.separation.isValid = true → r'.separation.isValid = true)
    (hr : r'.result = r.result) (he : r'.expected = r.expected) (ht : r'.taken = r.taken)
    (hs : r'.sequence = r.sequence) :
    r'.Collects address message count where
  target := ha.trans h.target
  valid := hv h.valid
  running := hr.trans h.running
  gathered := h.gathered.congr he ht hs
  more := h.more

theorem Owes.reset (h : r.Owes address message count) (size : UInt8) {separation : SeparationTime}
    (hv : r.separation.isValid = true → separation.isValid = true) :
    Owes address message { r with blockSize := size, separation } count :=
  ⟨h.toCollects.congr rfl hv rfl rfl rfl rfl, h.phase, h.held⟩

theorem Listens.opened (h : r.Listens address message b count taken unheard) :
    r.phase ≠ .fresh := by
  cases h.hearing with
  | unheard phase | heard phase => simp [phase]

theorem Listens.reset (h : r.Listens address message b count taken unheard) (size : UInt8)
    {separation : SeparationTime} (hv : r.separation.isValid = true → separation.isValid = true) :
    Listens address message { r with blockSize := size, separation } b count taken unheard where
  toCollects := h.toCollects.congr rfl hv rfl rfl rfl rfl
  hearing := by
    cases h.hearing with
    | unheard phase none => exact .unheard phase none
    | heard phase held => exact .heard phase held
  size := h.size
  separation := h.separation
  counted := h.counted
  room := h.room

theorem Listens.noteReply (h : r.Listens address message b count taken unheard) (now : Micros) :
    (r.noteReply now).Listens address message b count taken unheard where
  toCollects := h.toCollects.congr rfl id rfl rfl rfl rfl
  hearing := by
    cases h.hearing with
    | unheard phase none => exact .unheard phase none
    | heard phase held => exact .heard phase held
  size := h.size
  separation := h.separation
  counted := h.counted
  room := h.room

theorem opens (hp : r.phase = .fresh) (hr : r.result = none) (hh : r.held = none)
    (ha : r.address = address) (hv : r.separation.isValid = true)
    (hf : address.isFunctional = false) (hs : singleLimit < message.length)
    (hl : message.length < lengthLimit)
    (hfirst : firstFrame? address message = some (f, carried message.length))
    (ht : r.expired? now = none) (room : (message.length : Int) ≤ budget.remaining)
    (fits : budget.remaining ≤ Budget.top) :
    ∃ r' outcome, (r.step now (some f) budget).1 = .rest r' outcome ∧
      r'.Owes address message 0 := by
  obtain ⟨f', hf', -, hkind, hdlc, offset, hannounced, hbytes⟩ := firstFrame?_spec address hs hl
  obtain rfl : f = f' := by
    rw [hfirst] at hf'
    exact (Prod.mk.inj (Option.some.inj hf')).1
  have hopen : (r.noteReply now).act now (some f) budget =
      (r.noteReply now).takeFirst now f budget := by
    have hp' : (r.noteReply now).phase = .fresh := hp
    simp only [act, hp', openWith, hkind]
  have htaken : (f.payload.drop offset).take message.length =
      message.take (carried message.length) := by
    rw [hbytes, List.take_take, Nat.min_eq_right (Nat.le_of_lt (carried_lt hs))]
  have hphysical : (r.noteReply now).address.isFunctional = false := by
    change r.address.isFunctional = false
    rw [ha, hf]
  rw [step_timely hr ht, hopen, takeFirst_eq hphysical hdlc hannounced hs room fits, htaken]
  refine ⟨_, _, rfl, ⟨ha, hv, hr, ?_, by simpa using carried_lt hs⟩, rfl, hh⟩
  exact {
    expected := rfl
    count_le := Nat.le_refl 0
    congruent := rfl
    sequence := rfl
    taken_le := List.length_take_le _ _
    taken := fun _ => rfl
    last_lt := fun h => absurd h (Nat.lt_irrefl 0) }

theorem Owes.step (h : r.Owes address message count) (ht : r.expired? now = none)
    (budget : Budget) :
    (r.step now none budget).1 = (r.noteReply now).sendFlow now := by
  have hp : (r.noteReply now).phase = .sendFlow := h.phase
  rw [step_timely h.running ht]
  simp only [act, hp]

theorem Owes.refused (h : r.Owes address message count) (now after : Micros) :
    (((r.noteReply now).sendFlow now).finish false after).1.Owes address message count :=
  ⟨h.toCollects.congr rfl id rfl rfl rfl rfl, h.phase, h.held⟩

theorem Owes.grants (h : r.Owes address message count) (now after : Micros) :
    ((r.noteReply now).sendFlow now).written true =
        [flowControl address.reversed .continueToSend r.blockSize r.separation] ∧
      (((r.noteReply now).sendFlow now).finish true after).1.Listens address message
        { size := r.blockSize, separation := r.separation } count 0 1 ∧
      (((r.noteReply now).sendFlow now).finish true after).1.held = none := by
  refine ⟨?_, ⟨h.toCollects.congr rfl id rfl rfl rfl rfl, .unheard rfl rfl, rfl, rfl, rfl, ?_⟩,
    h.held⟩
  · change [flowControl r.address.reversed _ _ _] = _
    rw [h.target]
    rfl
  · exact Block.size_eq_zero_or_pos r.blockSize

theorem Listens.rests (h : r.Listens address message b count taken unheard)
    (ht : r.expired? now = none) (budget : Budget) :
    (r.step now none budget).1 = .rest (r.noteReply now) .inProgress := by
  have hp : (r.noteReply now).phase = r.phase := rfl
  rw [step_timely h.running ht]
  cases h.hearing with
  | unheard phase | heard phase => simp only [act, hp, phase]

theorem Listens.counted_absorbed (h : r.Listens address message b count taken unheard) (f : Frame) :
    (r.absorbed f).framesInBlock = UInt8.ofNat (taken + 1) := by
  change r.framesInBlock + 1 = _
  rw [h.counted, UInt8.ofNat_add]
  rfl

/-- The receiver takes the block to be complete if and only if it has taken in as many frames as it
asked for. -/
theorem Listens.full_iff (h : r.Listens address message b count taken unheard) (f : Frame) :
    (r.absorbed f).sentBlockSize ≠ 0 ∧ (r.absorbed f).sentBlockSize ≤ (r.absorbed f).framesInBlock ↔
      b.size ≠ 0 ∧ taken + 1 = b.size.toNat := by
  have hsize : (r.absorbed f).sentBlockSize = b.size := h.size
  rw [hsize, h.counted_absorbed f]
  exact and_congr_right fun hz => Block.size_le_ofNat_iff (h.room.resolve_left hz)

theorem Listens.consume (h : r.Listens address message b count taken 0)
    (hf : IsSegment message (count + 1) f) (now : Micros) :
    (r.consume now f).Onward address message b count taken := by
  have hcounted := h.counted_absorbed f
  have hfull := h.full_iff f
  obtain ⟨collects, hearing, size, separation, counted, room⟩ := h
  obtain ⟨target, valid, running, gathered, more⟩ := collects
  cases hearing with
  | heard phase held =>
    cases hf with
    | consecutive _ hkind hnumber hbytes hbefore =>
      have hlow : lowNibble (f.byte 0) = r.sequence := by
        apply UInt8.toNat_inj.mp
        rw [hnumber, gathered.sequence]
      have hnext : (r.absorbed f).Gathered message (count + 1) (count + 1) :=
        gathered.append (r.framesInBlock + 1) (Nat.le_refl _) rfl hbytes hbefore
      have hlength : (r.absorbed f).expected ≤ (r.absorbed f).taken.length ↔
          message.length ≤ carried message.length + chunkSize * (count + 1) := by
        rw [hnext.expected, hnext.taken rfl, List.length_take]
        omega
      rw [consume_eq hkind hlow, proceed]
      by_cases hall : message.length ≤ carried message.length + chunkSize * (count + 1)
      · rw [if_pos (hlength.mpr hall)]
        exact .received hall rfl rfl rfl (hnext.take_eq (Nat.succ_pos _) (hlength.mpr hall))
      · rw [if_neg (mt hlength.mp hall)]
        have hmore := Nat.lt_of_not_le hall
        by_cases hb : (r.absorbed f).sentBlockSize ≠ 0 ∧
          (r.absorbed f).sentBlockSize ≤ (r.absorbed f).framesInBlock
        · rw [if_pos hb]
          obtain ⟨hz, hlast⟩ := hfull.mp hb
          exact .spent hz hlast ⟨⟨target, valid, running, hnext.congr rfl rfl rfl, hmore⟩, rfl,
            held⟩
        · rw [if_neg hb]
          refine .listening ⟨⟨target, valid, running, hnext.congr rfl rfl rfl, hmore⟩,
            .heard phase held, size, separation, hcounted, ?_⟩
          refine Classical.or_iff_not_imp_left.mpr fun hz => ?_
          exact Nat.lt_of_le_of_ne (room.resolve_left hz) fun hlast => hb (hfull.mpr ⟨hz, hlast⟩)

/-- A frame that comes before the flow control is heard of is held back, any other is taken in. -/
theorem Listens.take (h : r.Listens address message b count taken unheard) (hh : r.held = none)
    (hf : IsSegment message (count + 1) f) (ht : r.expired? now = none) (budget : Budget) :
    ∃ r' outcome, (r.step now (some f) budget).1 = .rest r' outcome ∧
      (unheard = 0 ∧ r'.Onward address message b count taken ∨
        r'.Listens address message b count taken unheard ∧ r'.held = some f) := by
  have hp : (r.noteReply now).phase = r.phase := rfl
  have hnoted := h.noteReply now
  rw [step_timely h.running ht]
  cases h.hearing with
  | unheard phase none =>
    refine ⟨(r.noteReply now).hold f, .inProgress, by simp only [act, hp, phase], .inr ⟨?_, ?_⟩⟩
    · exact ⟨hnoted.toCollects.congr rfl id rfl rfl rfl rfl, .unheard phase none,
        hnoted.size, hnoted.separation, hnoted.counted, hnoted.room⟩
    · change r.held.or (some f) = some f
      rw [hh, Option.none_or]
  | heard phase held =>
    refine ⟨_, ((r.noteReply now).consume now f).outcome, ?_, .inl ⟨rfl, hnoted.consume hf now⟩⟩
    simp only [act, hp, phase, settle]

theorem Listens.hear (h : r.Listens address message b count taken unheard) (hu : 0 < unheard)
    (hf : ∀ f, r.held = some f → IsSegment message (count + 1) f) (now : Micros) :
    unheard = 1 ∧ (r.held = none ∧ (r.onAck now .success).Listens address message b count taken 0 ∧
        (r.onAck now .success).held = none ∨
      ∃ f, r.held = some f ∧ (r.onAck now .success).Onward address message b count taken) := by
  cases hearing : h.hearing with
  | heard => exact absurd hu (Nat.lt_irrefl 0)
  | unheard phase none =>
    refine ⟨rfl, ?_⟩
    have heard : Listens address message
        { r with nAr := r.nAr.stop now, nBr := .idle, nCr := .start now, phase := .awaitConsecutive, held := .none }
        b count taken 0 :=
      ⟨h.toCollects.congr rfl id rfl rfl rfl rfl, .heard rfl rfl, h.size, h.separation, h.counted,
        h.room⟩
    cases hh : r.held with
    | none =>
      rw [onAck_flow phase hh]
      exact .inl ⟨rfl, heard, rfl⟩
    | some f =>
      refine .inr ⟨f, rfl, ?_⟩
      have hack : r.onAck now .success = Receiver.consume
          { r with nAr := r.nAr.stop now, nBr := .idle, nCr := .start now, phase := .awaitConsecutive, held := .none }
          now f := by
        simp only [onAck, phase, hh]
      rw [hack]
      exact heard.consume (hf f hh) now

end Receiver
end CanTransport
