import Mathlib.Logic.Relation
import CanTransport.Proofs.Tandem
import CanTransport.Proofs.Blocks

/-! # The course of a conversation

Where the two ends of a tandem are at one time. Whatever happens next leads from one place of the
course to another, so that it is never left.
-/
namespace CanTransport
open Pdu

/-- The receiver has seen no frame yet. -/
structure Receiver.Untouched (address : Address) (r : Receiver) : Prop where
  target : r.address = address
  valid : r.separation.isValid = true
  phase : r.phase = .fresh
  running : r.result = none
  held : r.held = none

structure Segmented (address : Address) (message : List UInt8) (first : Frame) : Prop where
  physical : address.isFunctional = false
  long : singleLimit < message.length
  encodable : message.length < lengthLimit
  first_eq : firstFrame? address message = some (first, carried message.length)

namespace Tandem

variable {address : Address} {message : List UInt8} {first f : Frame} {t : Tandem}
  {blocks done : List Block} {b : Block}

def count (blocks : List Block) : Nat := (blocks.flatMap Block.frames).length

/-- All that was accepted: the first frame, and then block after block. -/
structure Written (address : Address) (message : List UInt8) (first : Frame) (t : Tandem)
    (blocks : List Block) : Prop where
  source : t.sender.address = address
  message_eq : t.sender.message = message
  emitted : t.sender.Emitted (first :: blocks.flatMap Block.frames)
  log : t.log = first :: blocks.flatMap (Block.written address)

/-- Where the two ends are, together. In each case the other queues are empty. -/
inductive Course (address : Address) (message : List UInt8) (first : Frame) :
    Tandem → List Block → Prop
  | unsent {t : Tandem} (source : t.sender.address = address)
      (message_eq : t.sender.message = message)
    (emitted : t.sender.Emitted []) (phase : t.sender.phase = .sendFirst)
    (untouched : t.receiver.Untouched address) (forth : t.forth = []) (back : t.back = [])
    (unheardForth : t.unheardForth = 0) (unheardBack : t.unheardBack = 0) (log : t.log = []) :
    Course address message first t []
  | announced {t : Tandem} (written : Written address message first t [])
      (asks : t.sender.Asks none t.unheardForth)
    (untouched : t.receiver.Untouched address) (forth : t.forth = [first]) (back : t.back = [])
    (unheardBack : t.unheardBack = 0) : Course address message first t []
  | owed {t : Tandem} {blocks : List Block} (written : Written address message first t blocks)
    (complete : ∀ d ∈ blocks, d.Complete) (asks : t.sender.Asks blocks.getLast? t.unheardForth)
    (owes : t.receiver.Owes address message (count blocks)) (forth : t.forth = [])
    (back : t.back = []) (unheardBack : t.unheardBack = 0) : Course address message first t blocks
  | granted {t : Tandem} {done : List Block} {b : Block}
      (written : Written address message first t (done ++ [b]))
    (complete : ∀ d ∈ done, d.Complete) (empty : b.frames = [])
    (asks : t.sender.Asks done.getLast? t.unheardForth)
    (listens : t.receiver.Listens address message b (count done) 0 t.unheardBack)
    (held : t.receiver.held = none) (valid : b.separation.isValid = true) (forth : t.forth = [])
    (back : t.back = [flowControl address.reversed .continueToSend b.size b.separation]) :
    Course address message first t (done ++ [b])
  | flowing {t : Tandem} {done : List Block} {b : Block} {taken : Nat}
    (written : Written address message first t (done ++ [b])) (complete : ∀ d ∈ done, d.Complete)
    (works : t.sender.Works b t.unheardForth)
    (listens : t.receiver.Listens address message b (count done + taken) taken t.unheardBack)
    (taken_le : taken ≤ b.frames.length)
    (forth : t.receiver.held.toList ++ t.forth = b.frames.drop taken) (back : t.back = []) :
    Course address message first t (done ++ [b])
  | received {t : Tandem} {done : List Block} {b : Block}
      (written : Written address message first t (done ++ [b]))
    (complete : ∀ d ∈ done, d.Complete) (within : b.Within) (ends : t.sender.Ends b t.unheardForth)
    (phase : t.receiver.phase = .received) (result : t.receiver.result = some (.ok ()))
    (held : t.receiver.held = none) (bytes : t.receiver.message = message)
    (all : first :: (done ++ [b]).flatMap Block.frames = segmentation address message)
    (forth : t.forth = []) (back : t.back = []) (unheardBack : t.unheardBack = 0) :
    Course address message first t (done ++ [b])

theorem count_append (done : List Block) (b : Block) :
    count (done ++ [b]) = count done + b.frames.length := by
  simp [count]

/-- What is written is the beginning of the segmentation. -/
theorem Written.begins (h : Written address message first t blocks) :
    first :: blocks.flatMap Block.frames <+: segmentation address message := by
  have he := h.emitted.begins
  rwa [h.source, h.message_eq] at he

/-- Frames of a block have their places in the message. -/
theorem Written.isSegment (h : Written address message first t (done ++ [b]))
    (hs : Segmented address message first) {i : Nat} (hf : b.frames[i]? = some f) :
    IsSegment message (count done + i + 1) f := by
  have hi : i < b.frames.length := (List.getElem?_eq_some_iff.mp hf).1
  obtain ⟨rest, hrest⟩ := h.begins
  refine isSegment_of_getElem? address hs.encodable ?_
  rw [← hrest, List.cons_append, List.getElem?_cons_succ, List.flatMap_append,
    List.flatMap_singleton, List.getElem?_append_left (by simp [count]; omega),
    List.getElem?_append_right (by simp [count])]
  simpa [count] using hf

theorem Written.offset_lt (h : Written address message first t blocks)
    (hs : Segmented address message first)
    (hp : t.sender.isUnderWay = true ∨ t.sender.phase = .awaitConsecutiveAck) :
    t.sender.offset < t.sender.message.length ↔
      carried message.length + chunkSize * count blocks < message.length := by
  rw [h.emitted.offset_lt_iff hp, h.source, h.message_eq, ← lt_length_segmentation
    address hs.long hs.encodable]
  rfl

theorem Written.congr {t' : Tandem} (h : Written address message first t blocks)
    (hs : t'.sender = t.sender) (hl : t'.log = t.log) :
    Written address message first t' blocks where
  source := hs ▸ h.source
  message_eq := hs ▸ h.message_eq
  emitted := hs ▸ h.emitted
  log := hl ▸ h.log

section SenderEvents
variable {s' : Sender} {outcome : StepOutcome} {now after : Micros} {frame : Option Frame}
  {accepted : Bool}

theorem stepSender_rest (h : t.sender.step now frame = .rest s' outcome) :
    t.stepSender now frame accepted after = { t with sender := s' } := by
  simp [stepSender, h]

theorem Written.rest (h : Written address message first t blocks)
    (hs : t.sender.step now frame = .rest s' outcome) :
    Written address message first { t with sender := s' } blocks := by
  have hsubject := Sender.subject_step t.sender now now frame false
  have hemitted : ((t.sender.step now frame).finish false now).1.Emitted
      (first :: blocks.flatMap Block.frames ++ (t.sender.step now frame).written false) :=
    Sender.step_emitted h.emitted false
  rw [hs, Move.finish_rest] at hsubject
  rw [hs, Move.finish_rest, Move.written_rest, List.append_nil] at hemitted
  obtain ⟨haddress, hmessage⟩ := Prod.mk.inj hsubject
  exact ⟨haddress.trans h.source, (Prod.mk.inj hmessage).1.trans h.message_eq, hemitted, h.log⟩

theorem Written.send (h : Written address message first t (done ++ [b])) (now after : Micros)
    (accepted : Bool) :
    Written address message first (t.stepSender now none accepted after)
      (done ++ [{ b with frames := b.frames ++ (t.sender.step now none).written accepted }]) := by
  obtain ⟨haddress, hmessage⟩ := Prod.mk.inj (Sender.subject_step t.sender now after none accepted)
  refine ⟨haddress.trans h.source, (Prod.mk.inj hmessage).1.trans h.message_eq, ?_, ?_⟩
  · have hemitted : ((t.sender.step now none).finish accepted after).1.Emitted _ :=
      Sender.step_emitted h.emitted accepted
    simpa [stepSender] using hemitted
  · change t.log ++ _ = _
    simp [h.log, Block.written]

theorem Written.hear (h : Written address message first t blocks) (now : Micros) (n : Nat) :
    Written address message
    first { t with sender := t.sender.onAck now .success, unheardForth := n } blocks := by
  obtain ⟨haddress, hmessage⟩ := Prod.mk.inj (Sender.subject_onAck t.sender now .success)
  exact ⟨haddress.trans h.source, (Prod.mk.inj hmessage).1.trans h.message_eq,
    Sender.onAck_emitted h.emitted now _, h.log⟩

theorem Course.announce (hs : Segmented address message first)
    (hsource : t.sender.address = address) (hmessage : t.sender.message = message)
    (he : t.sender.Emitted []) (hp : t.sender.phase = .sendFirst)
    (hr : t.receiver.Untouched address) (hforth : t.forth = []) (hback : t.back = [])
    (hu : t.unheardForth = 0) (hb : t.unheardBack = 0) (hlog : t.log = [])
    (ht : t.sender.expired? now = none) :
    Course address message first (t.stepSender now none accepted after) [] := by
  have hrun : t.sender.result = none := he.running.mpr (by simp [hp])
  have hstep : t.sender.step now none = (t.sender.notePace now).sendFirst now := by
    have hp' : (t.sender.notePace now).phase = .sendFirst := hp
    rw [Sender.step_timely hrun ht]
    simp only [Sender.act, hp']
  have hframe : firstFrame? (t.sender.notePace now).address (t.sender.notePace now).message =
      some (first, carried message.length) := by
    rw [← hs.first_eq, ← hsource, ← hmessage]
    rfl
  have hsend := hstep.trans (Sender.sendFirst_eq hframe)
  have hemitted : ((t.sender.step now none).finish accepted after).1.Emitted
      ([] ++ (t.sender.step now none).written accepted) := Sender.step_emitted he accepted
  rw [hsend] at hemitted
  cases accepted with
  | false =>
    rw [stepSender, hsend]
    exact .unsent hsource hmessage hemitted hp hr (by simp [Sender.transmit, hforth])
      hback (by simp [Sender.transmit, hu])
      hb (by simp [Sender.transmit, hlog])
  | true =>
    rw [stepSender, hsend]
    refine .announced ⟨hsource, hmessage, hemitted, by simp [Sender.transmit, hlog]⟩ ?_ hr
      (by simp [Sender.transmit, hforth]) hback hb
    change Sender.Asks _ none (t.unheardForth + 1)
    rw [hu]
    exact .announced rfl

theorem Course.send (hs : Segmented address message first)
    (h : Course address message first t blocks) (ht : t.sender.expired? now = none)
    (accepted : Bool) :
    ∃ blocks', Course address message first (t.stepSender now none accepted after) blocks' := by
  cases h with
  | unsent source message_eq emitted phase untouched forth back unheardForth unheardBack log =>
    exact ⟨[], .announce hs source message_eq emitted phase untouched forth back
      unheardForth unheardBack log ht⟩
  | announced written asks untouched forth back unheardBack =>
    have hrests := asks.rests (asks.running written.emitted) ht
    rw [stepSender_rest hrests]
    exact ⟨_, .announced (written.rest hrests) (asks.notePace now) untouched forth back unheardBack⟩
  | owed written complete asks owes forth back unheardBack =>
    have hrests := asks.rests (asks.running written.emitted) ht
    rw [stepSender_rest hrests]
    exact ⟨_, .owed (written.rest hrests) complete (asks.notePace now) owes forth back unheardBack⟩
  | granted written complete empty asks listens held valid forth back =>
    have hrests := asks.rests (asks.running written.emitted) ht
    rw [stepSender_rest hrests]
    exact ⟨_, .granted (written.rest hrests) complete empty (asks.notePace now)
      listens held valid forth back⟩
  | flowing written complete works listens taken_le forth back =>
    refine ⟨_, .flowing (written.send now after accepted) complete
      (works.step written.emitted ht accepted) ?_ (Nat.le_trans taken_le (by simp)) ?_ back⟩
    · exact { listens with size := listens.size, separation := listens.separation, room := listens.room }
    · change t.receiver.held.toList ++ (t.forth ++ _) = _
      rw [← List.append_assoc, forth, List.drop_append_of_le_length taken_le]
  | received written complete within ends phase result held bytes all forth back unheardBack =>
    obtain ⟨s', outcome, hrests, hends⟩ := ends.step written.emitted ht
    rw [stepSender_rest hrests]
    exact ⟨_, .received (written.rest hrests) complete within hends phase result held bytes all
      forth back unheardBack⟩

theorem Course.heed {rest : List Frame} (h : Course address message first t blocks)
    (hf : t.back = f :: rest) (ha : t.sender.isAwaiting = true) (ht : t.sender.expired? now = none)
    (accepted : Bool) :
    ∃ blocks', Course address message first
      ({ t with back := rest }.stepSender now (some f) accepted after) blocks' := by
  cases h with
  | granted written complete empty asks listens held valid forth back =>
    obtain ⟨rfl, rfl⟩ := List.cons.inj (hf.symm.trans back)
    obtain ⟨hu, hstep⟩ := asks.heeds ha (asks.running written.emitted) ht address _ valid
    rw [stepSender_rest (t := { t with back := [] }) hstep]
    refine ⟨_, .flowing ((written.rest hstep).congr rfl rfl) complete ?_ listens (Nat.zero_le _)
      ?_ rfl⟩
    · change Sender.Works _ _ t.unheardForth
      rw [hu]
      exact Sender.works_resume _ now empty
    · simp [held, forth, empty]
  | unsent _ _ _ _ _ _ back | announced _ _ _ _ back | owed _ _ _ _ _ back
  | flowing _ _ _ _ _ _ back
  | received _ _ _ _ _ _ _ _ _ _ back => exact absurd (back.symm.trans hf) nofun

theorem Course.hearSender (h : Course address message first t blocks) (hu : 0 < t.unheardForth)
    (now : Micros) :
    ∃ blocks', Course address message first
      { t with sender := t.sender.onAck now .success, unheardForth := t.unheardForth - 1 }
      blocks' := by
  cases h with
  | unsent _ _ _ _ _ _ _ unheardForth => exact absurd hu (by simp [unheardForth])
  | announced written asks untouched forth back unheardBack =>
    exact ⟨_, .announced (written.hear now _) (asks.hear hu now) untouched forth back unheardBack⟩
  | owed written complete asks owes forth back unheardBack =>
    exact ⟨_, .owed (written.hear now _) complete (asks.hear hu now) owes forth back unheardBack⟩
  | granted written complete empty asks listens held valid forth back =>
    exact ⟨_, .granted (written.hear now _) complete empty (asks.hear hu now)
      listens held valid forth back⟩
  | flowing written complete works listens taken_le forth back =>
    exact ⟨_, .flowing (written.hear now _) complete (works.hear hu now)
      listens taken_le forth back⟩
  | received written complete within ends phase result held bytes all forth back unheardBack =>
    exact ⟨_, .received (written.hear now _) complete within (ends.hear hu now) phase result
      held bytes all forth back unheardBack⟩

end SenderEvents

section ReceiverEvents
variable {r' : Receiver} {outcome : StepOutcome} {now after : Micros} {frame : Option Frame}
  {budget : Budget} {accepted : Bool} {taken : Nat}

theorem stepReceiver_rest (h : (t.receiver.step now frame budget).1 = .rest r' outcome) :
    t.stepReceiver now frame budget accepted after = { t with receiver := r' } := by
  simp [stepReceiver, h]

/-- The sender has come as far as the receiver, wherever one more frame takes that. -/
theorem Course.onward (hs : Segmented address message first)
    (written : Written address message first t (done ++ [b])) (complete : ∀ d ∈ done, d.Complete)
    (works : t.sender.Works b t.unheardForth) (forth : f :: t.forth = b.frames.drop taken)
    (back : t.back = []) (unheardBack : t.unheardBack = 0)
    (h : t.receiver.Onward address message b (count done + taken) taken) :
    Course address message first t (done ++ [b]) := by
  have hframes : b.frames.length = taken + 1 + t.forth.length := by
    have hl := congrArg List.length forth
    rw [List.length_cons, List.length_drop] at hl
    omega
  have hcount : count (done ++ [b]) = count done + taken + 1 + t.forth.length := by
    rw [count_append, hframes]
    omega
  have hmore := lt_length_segmentation address (i := count done + taken + 1) hs.long hs.encodable
  have held := h.held_eq
  cases h with
  | received enough phase result _ bytes =>
    have hbegins := written.begins.length_le
    rw [List.length_cons] at hbegins
    change count (done ++ [b]) + 1 ≤ _ at hbegins
    have hforth : t.forth.length = 0 := by omega
    have hall := written.begins.eq_of_length_le (by
      rw [List.length_cons]
      change _ ≤ count (done ++ [b]) + 1
      omega)
    have hends := works.ends written.emitted fun hp hlt => by
      have hlt := (written.offset_lt hs hp).mp hlt
      rw [hcount, hforth, Nat.add_zero] at hlt
      exact Nat.not_lt.mpr enough hlt
    exact .received written complete works.within hends phase result held bytes hall
      (List.eq_nil_of_length_eq_zero hforth) back unheardBack
  | spent size full owes =>
    have hwithin := works.within size
    have hforth : t.forth.length = 0 := by omega
    have hcomplete : b.Complete := ⟨size, by omega⟩
    rw [hforth, Nat.add_zero] at hcount
    have hasks : t.sender.Asks (done ++ [b]).getLast? t.unheardForth := by
      rw [List.getLast?_concat]
      refine works.asks hcomplete
        (fun hp => (written.offset_lt hs (.inr hp)).mpr (hcount ▸ owes.more)) fun hsent => ?_
      have hall := written.emitted.eq_segmentation (written.emitted.succeeded.mpr hsent)
      rw [written.source, written.message_eq] at hall
      have hlt := hmore.mpr owes.more
      rw [← hall, List.length_cons, ← hcount] at hlt
      exact Nat.lt_irrefl _ hlt
    refine .owed written (fun d hd => ?_) hasks (hcount ▸ owes)
      (List.eq_nil_of_length_eq_zero hforth) back unheardBack
    rcases List.mem_append.mp hd with hd | hd
    · exact complete d hd
    · exact List.mem_singleton.mp hd ▸ hcomplete
  | listening listens =>
    refine .flowing written complete works (unheardBack ▸ Nat.add_assoc _ _ _ ▸ listens)
      (by omega) ?_ back
    rw [held, ← List.tail_drop, ← forth]
    rfl

theorem Course.reply (h : Course address message first t blocks) (ho : t.receiver.phase ≠ .fresh)
    (ht : t.receiver.expired? now = none) (budget : Budget) (accepted : Bool) :
    ∃ blocks', Course address message first (t.stepReceiver now none budget accepted after)
      blocks' := by
  cases h with
  | unsent _ _ _ _ untouched | announced _ _ untouched => exact absurd untouched.phase ho
  | owed written complete asks owes forth back unheardBack =>
    have hstep := owes.step ht budget
    cases accepted with
    | false =>
      refine ⟨_, .owed (written.congr rfl ?_) complete asks ?_ forth ?_ ?_⟩ <;>
        simp only [stepReceiver, hstep]
      · exact List.append_nil _
      · exact owes.refused now after
      · exact (List.append_nil _).trans back
      · exact unheardBack
    | true =>
      obtain ⟨hwritten, hlistens, hheld⟩ := owes.grants now after
      refine ⟨blocks ++ [{ size := t.receiver.blockSize, separation := t.receiver.separation }],
        .granted ⟨written.source, written.message_eq, ?_, ?_⟩ complete rfl asks ?_ ?_
        owes.valid forth ?_⟩ <;>
        simp only [stepReceiver, hstep, hwritten]
      · simpa using written.emitted
      · simp [written.log, Block.written]
      · rw [unheardBack]
        exact hlistens
      · exact hheld
      · rw [back]
        rfl
  | granted written complete empty asks listens held valid forth back =>
    have hrests := listens.rests ht budget
    rw [stepReceiver_rest hrests]
    exact ⟨_, .granted (written.congr rfl rfl) complete empty asks (listens.noteReply now)
      held valid forth back⟩
  | flowing written complete works listens taken_le forth back =>
    have hrests := listens.rests ht budget
    rw [stepReceiver_rest hrests]
    exact ⟨_, .flowing (written.congr rfl rfl) complete works (listens.noteReply now) taken_le forth
      back⟩
  | received written complete within ends phase result held bytes all forth back unheardBack =>
    have hrests : (t.receiver.step now none budget).1 = .rest t.receiver (.finished (.ok ())) := by
      rw [Receiver.step, result]
    rw [stepReceiver_rest hrests]
    exact ⟨_, .received written complete within ends phase result held bytes all
      forth back unheardBack⟩

theorem Course.take {rest : List Frame} (hs : Segmented address message first)
    (h : Course address message first t blocks) (hf : t.forth = f :: rest)
    (hr : ReadyToTake t.receiver) (ht : t.receiver.expired? now = none)
    (room : (message.length : Int) ≤ budget.remaining) (fits : budget.remaining ≤ Budget.top)
    (accepted : Bool) : ∃ blocks', Course address message first
      ({ t with forth := rest }.stepReceiver now (some f) budget accepted after) blocks' := by
  cases h with
  | unsent _ _ _ _ _ forth | owed _ _ _ _ forth | granted _ _ _ _ _ _ _ forth
  | received _ _ _ _ _ _ _ _ _ forth => exact absurd (forth.symm.trans hf) nofun
  | announced written asks untouched forth back unheardBack =>
    obtain ⟨rfl, rfl⟩ := List.cons.inj (hf.symm.trans forth)
    obtain ⟨r', outcome, hstep, howes⟩ :=
      Receiver.opens untouched.phase untouched.running untouched.held untouched.target
        untouched.valid hs.physical hs.long hs.encodable hs.first_eq ht room fits
    rw [stepReceiver_rest (t := { t with forth := [] }) hstep]
    exact ⟨[], .owed (written.congr rfl rfl) nofun asks howes rfl back unheardBack⟩
  | @flowing done b taken written complete works listens taken_le forth back =>
    obtain ⟨-, hnone⟩ := hr.resolve_left listens.opened
    have hnext : f :: rest = b.frames.drop taken := by rw [← forth, hnone, hf]; rfl
    have hsegment : IsSegment message (count done + taken + 1) f :=
      written.isSegment hs (by rw [← List.head?_drop, ← hnext]; rfl)
    obtain ⟨r', outcome, hstep, ⟨hu, honward⟩ | ⟨hlistens, hheld⟩⟩ :=
      listens.take hnone hsegment ht budget
    · rw [stepReceiver_rest (t := { t with forth := rest }) hstep]
      exact ⟨_, Course.onward hs (written.congr rfl rfl) complete works hnext back hu honward⟩
    · rw [stepReceiver_rest (t := { t with forth := rest }) hstep]
      refine ⟨_, .flowing (written.congr rfl rfl) complete works hlistens taken_le ?_ back⟩
      rw [hheld]
      exact hnext

theorem Course.hearReceiver (hs : Segmented address message first)
    (h : Course address message first t blocks) (hu : 0 < t.unheardBack) (now : Micros) :
    ∃ blocks', Course address message first
      { t with receiver := t.receiver.onAck now .success, unheardBack := t.unheardBack - 1 }
      blocks' := by
  cases h with
  | unsent _ _ _ _ _ _ _ _ unheardBack | announced _ _ _ _ _ unheardBack
  | owed _ _ _ _ _ _ unheardBack
  | received _ _ _ _ _ _ _ _ _ _ _ unheardBack => exact absurd hu (by simp [unheardBack])
  | granted written complete empty asks listens held valid forth back =>
    obtain ⟨hone, ⟨-, hlistens, hheld⟩ | ⟨f, hf, -⟩⟩ :=
      listens.hear hu (fun f hf => absurd (held.symm.trans hf) nofun) now
    · have hzero : t.unheardBack - 1 = 0 := by omega
      refine ⟨_, .granted (written.congr rfl rfl) complete empty asks ?_ hheld valid forth back⟩
      rw [hzero]
      exact hlistens
    · exact absurd (held.symm.trans hf) nofun
  | @flowing done b taken written complete works listens taken_le forth back =>
    have hsegment : ∀ f, t.receiver.held = some f →
        IsSegment message (count done + taken + 1) f := fun f hf =>
      written.isSegment hs (by rw [← List.head?_drop, ← forth, hf]; rfl)
    obtain ⟨hone, hheard⟩ := listens.hear hu hsegment now
    have hzero : t.unheardBack - 1 = 0 := by omega
    obtain ⟨hnone, hlistens, hheld⟩ | ⟨f, hf, honward⟩ := hheard
    · refine ⟨_, .flowing (written.congr rfl rfl) complete works ?_ taken_le ?_ back⟩
      · rw [hzero]
        exact hlistens
      · rw [hheld, ← forth, hnone]
    · refine ⟨_, Course.onward (f := f) hs (written.congr rfl rfl) complete works
        ?_ back hzero honward⟩
      rw [← forth, hf]
      rfl

/-- New settings count from the next flow control on. -/
theorem Course.reset (h : Course address message first t blocks) (size : UInt8)
    {separation : SeparationTime}
    (hv : t.receiver.separation.isValid = true → separation.isValid = true) :
    Course address message first
      { t with receiver := { t.receiver with blockSize := size, separation } } blocks := by
  cases h with
  | unsent source message_eq emitted phase untouched forth back unheardForth unheardBack log =>
    exact .unsent source message_eq emitted phase
      ⟨untouched.target, hv untouched.valid, untouched.phase, untouched.running, untouched.held⟩
      forth back unheardForth unheardBack log
  | announced written asks untouched forth back unheardBack =>
    exact .announced (written.congr rfl rfl) asks
      ⟨untouched.target, hv untouched.valid, untouched.phase, untouched.running, untouched.held⟩
      forth back unheardBack
  | owed written complete asks owes forth back unheardBack =>
    exact .owed (written.congr rfl rfl) complete asks (owes.reset size hv) forth back unheardBack
  | granted written complete empty asks listens held valid forth back =>
    exact .granted (written.congr rfl rfl) complete empty asks (listens.reset size hv) held valid
      forth back
  | flowing written complete works listens taken_le forth back =>
    exact .flowing (written.congr rfl rfl) complete works (listens.reset size hv) taken_le forth
      back
  | received written complete within ends phase result held bytes all forth back unheardBack =>
    exact .received (written.congr rfl rfl) complete within ends phase result held bytes all
      forth back unheardBack

end ReceiverEvents

theorem Course.message_eq (h : Course address message first t blocks) :
    t.sender.message = message := by
  cases h with
  | unsent _ message_eq => exact message_eq
  | announced written | owed written | granted written | flowing written | received written =>
    exact written.message_eq

theorem Course.step {t' : Tandem} (hs : Segmented address message first)
    (h : Course address message first t blocks) (ht : t.Step t') :
    ∃ blocks', Course address message first t' blocks' := by
  cases ht with
  | send now after accepted timely => exact h.send hs timely accepted
  | heed now after accepted arrived awaits timely => exact h.heed arrived awaits timely accepted
  | reply now after budget accepted opened timely => exact h.reply opened timely budget accepted
  | take now after budget accepted arrived ready timely room fits =>
    exact h.take hs arrived ready timely (h.message_eq ▸ room) fits accepted
  | hearSender now unheard => exact h.hearSender unheard now
  | hearReceiver now unheard => exact h.hearReceiver hs unheard now
  | setBlockSize value => exact ⟨_, h.reset value id⟩
  | setSeparation value valid => exact ⟨_, h.reset _ fun _ => valid⟩

theorem Course.run {t' : Tandem} (hs : Segmented address message first)
    (h : Course address message first t blocks) (ht : Relation.ReflTransGen Step t t') :
    ∃ blocks', Course address message first t' blocks' := by
  induction ht with
  | refl => exact ⟨blocks, h⟩
  | tail _ hstep ih =>
    obtain ⟨blocks', h'⟩ := ih
    exact h'.step hs hstep

end Tandem
end CanTransport
