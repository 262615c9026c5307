import CanTransport.Proofs.Course

/-! # Both ends agree on the blocks

The sender and the receiver of a tandem count the frames of a block each on their own, and the
settings of the next block may change while one is under way. All the same the receiver asks again
exactly when the sender waits for it, and what the sender goes by is what the receiver put into the
flow control.
-/
namespace CanTransport
open Pdu

namespace Tandem

variable {address : Address} {message : List UInt8} {first : Frame} {t : Tandem}
  {blocks done : List Block}

/-- What the frames accepted so far tell about the blocks, and the two ends about the block under
way. -/
structure Agreement (address : Address) (message : List UInt8) (t : Tandem) (blocks : List Block) :
    Prop where
  /-- Flow control comes first in each block, and together the other frames are the beginning of the
  message. -/
  log : t.log = [] ∧ blocks = [] ∨
    ∃ first, t.log = first :: blocks.flatMap (Block.written address) ∧
    first :: blocks.flatMap Block.frames <+: segmentation address message
  /-- Before the receiver asks again, the sender has sent exactly what it was asked for. -/
  complete : ∀ b ∈ blocks.dropLast, b.Complete
  within : ∀ b ∈ blocks, b.Within
  /-- The receiver counts the frames of the last block by the settings that it sent with that. -/
  counts : t.receiver.isAwaiting = true → ∃ b, blocks.getLast? = some b ∧
    t.receiver.sentBlockSize = b.size ∧ t.receiver.sentSeparation = b.separation
  /-- A sender about to send goes by the settings of the last block. -/
  sends : t.sender.phase = .sendConsecutive → ∃ b, blocks.getLast? = some b ∧ t.sender.Obeys b
  /-- A sender that has sent goes by the settings of the block of its last frame. -/
  sent : t.sender.phase = .awaitConsecutiveAck →
    ∃ b, (blocks.filter fun b => b.frames ≠ []).getLast? = some b ∧ t.sender.Obeys b
  /-- With success on either end, the frames are all of the message. -/
  whole : t.sender.result = some (.ok ()) ∨ t.receiver.result = some (.ok ()) →
    ∃ first, t.log = first :: blocks.flatMap (Block.written address) ∧
      first :: blocks.flatMap Block.frames = segmentation address message
  bytes : t.receiver.result = some (.ok ()) → t.receiver.message = message

theorem filter_complete (h : ∀ d ∈ done, d.Complete) :
    done.filter (fun b => b.frames ≠ []) = done :=
  List.filter_eq_self.mpr fun d hd => decide_eq_true (h d hd).frames_ne_nil

theorem Course.log (h : Course address message first t blocks) : t.log = [] ∧ blocks = [] ∨
    ∃ first, t.log = first :: blocks.flatMap (Block.written address) ∧
      first :: blocks.flatMap Block.frames <+: segmentation address message := by
  cases h with
  | unsent _ _ _ _ _ _ _ _ _ log => exact .inl ⟨log, rfl⟩
  | announced written | owed written | granted written | flowing written | received written =>
    exact .inr ⟨first, written.log, written.begins⟩

theorem Course.complete (h : Course address message first t blocks) :
    ∀ d ∈ blocks.dropLast, d.Complete := by
  cases h with
  | unsent | announced => exact nofun
  | owed _ complete => exact fun d hd => complete d ((List.dropLast_sublist _).subset hd)
  | granted _ complete | flowing _ complete | received _ complete =>
    rw [List.dropLast_concat]
    exact complete

theorem Course.within (h : Course address message first t blocks) : ∀ d ∈ blocks, d.Within := by
  have concat {done : List Block} {b : Block} (complete : ∀ d ∈ done, d.Complete) (hb : b.Within) :
      ∀ d ∈ done ++ [b], d.Within := fun d hd => by
    rcases List.mem_append.mp hd with hd | hd
    · exact (complete d hd).within
    · exact List.mem_singleton.mp hd ▸ hb
  cases h with
  | unsent | announced => exact nofun
  | owed _ complete => exact fun d hd => (complete d hd).within
  | granted _ complete empty => exact concat complete fun _ => by simp [empty]
  | flowing _ complete works => exact concat complete works.within
  | received _ complete within => exact concat complete within

theorem Course.emitted (h : Course address message first t blocks) :
    ∃ sent, t.sender.Emitted sent ∧ t.sender.phase ≠ .failed := by
  cases h with
  | unsent _ _ emitted phase => exact ⟨[], emitted, by simp [phase]⟩
  | announced written asks | owed written _ asks | granted written _ _ asks =>
    exact ⟨_, written.emitted, asks.phase_ne.2⟩
  | flowing written _ works => exact ⟨_, written.emitted, works.phase_ne⟩
  | received written _ _ ends => exact ⟨_, written.emitted, ends.phase_ne.2⟩

/-- The receiver is at work, or has all of the message. -/
theorem Course.receiver (h : Course address message first t blocks) : t.receiver.result = none ∨
    t.receiver.result = some (.ok ()) ∧ t.receiver.message = message ∧
      t.log = first :: blocks.flatMap (Block.written address) ∧
      first :: blocks.flatMap Block.frames = segmentation address message := by
  cases h with
  | unsent _ _ _ _ untouched | announced _ _ untouched => exact .inl untouched.running
  | owed _ _ _ owes => exact .inl owes.running
  | granted _ _ _ _ listens | flowing _ _ _ listens => exact .inl listens.running
  | received written _ _ _ _ result _ bytes all => exact .inr ⟨result, bytes, written.log, all⟩

theorem Course.succeeds (h : Course address message first t blocks) (e : TransferError) :
    t.sender.result ≠ some (.error e) ∧ t.receiver.result ≠ some (.error e) := by
  obtain ⟨sent, hemitted, hphase⟩ := h.emitted
  constructor
  · intro he
    have hsent : t.sender.phase = .sent := Decidable.byContradiction fun hne =>
      absurd ((hemitted.running.mpr ⟨hne, hphase⟩).symm.trans he) nofun
    exact absurd ((hemitted.succeeded.mpr hsent).symm.trans he) nofun
  · intro he
    rcases h.receiver with hrun | ⟨hok, -⟩
    · exact absurd (hrun.symm.trans he) nofun
    · exact absurd (hok.symm.trans he) nofun

theorem Course.counts (h : Course address message first t blocks)
    (ha : t.receiver.isAwaiting = true) :
    ∃ b, blocks.getLast? = some b ∧ t.receiver.sentBlockSize = b.size ∧
      t.receiver.sentSeparation = b.separation := by
  cases h with
  | unsent _ _ _ _ untouched | announced _ _ untouched =>
    simp [Receiver.isAwaiting, untouched.phase] at ha
  | owed _ _ _ owes => simp [Receiver.isAwaiting, owes.phase] at ha
  | granted _ _ _ _ listens | flowing _ _ _ listens =>
    exact ⟨_, List.getLast?_concat, listens.size, listens.separation⟩
  | received _ _ _ _ phase => simp [Receiver.isAwaiting, phase] at ha

theorem Course.sends (h : Course address message first t blocks)
    (hp : t.sender.phase = .sendConsecutive) :
    ∃ b, blocks.getLast? = some b ∧ t.sender.Obeys b := by
  cases h with
  | unsent _ _ _ phase => exact absurd (phase.symm.trans hp) nofun
  | announced _ asks | owed _ _ asks | granted _ _ _ asks => exact absurd hp asks.phase_ne.1
  | flowing _ _ works => exact ⟨_, List.getLast?_concat, works.obeys⟩
  | received _ _ _ ends => exact absurd hp ends.phase_ne.1

theorem Course.sent (h : Course address message first t blocks)
    (hp : t.sender.phase = .awaitConsecutiveAck) :
    ∃ b, (blocks.filter fun b => b.frames ≠ []).getLast? = some b ∧ t.sender.Obeys b := by
  have last {done : List Block} {b : Block} (hb : b.frames ≠ []) :
      ((done ++ [b]).filter fun b => b.frames ≠ []).getLast? = some b := by
    rw [List.filter_append, List.filter_cons_of_pos (by simpa using hb),
      List.filter_nil, List.getLast?_concat]
  cases h with
  | unsent _ _ _ phase => exact absurd (phase.symm.trans hp) nofun
  | announced _ asks =>
    obtain ⟨b, hb, -⟩ := asks.obeys hp
    exact absurd hb nofun
  | owed _ complete asks =>
    obtain ⟨b, hb, hobeys⟩ := asks.obeys hp
    exact ⟨b, by rw [filter_complete complete, hb], hobeys⟩
  | granted _ complete empty asks =>
    obtain ⟨b, hb, hobeys⟩ := asks.obeys hp
    refine ⟨b, ?_, hobeys⟩
    rw [List.filter_append, filter_complete complete,
      List.filter_cons_of_neg (by simpa using empty), List.filter_nil,
      List.append_nil, hb]
  | flowing _ _ works => exact ⟨_, last (works.begun hp), works.obeys⟩
  | received _ _ _ ends => exact ⟨_, last (ends.obeys hp).1, (ends.obeys hp).2⟩

theorem Course.whole (h : Course address message first t blocks)
    (hok : t.sender.result = some (.ok ()) ∨ t.receiver.result = some (.ok ())) :
    ∃ first, t.log = first :: blocks.flatMap (Block.written address) ∧
      first :: blocks.flatMap Block.frames = segmentation address message := by
  rcases hok with hsender | hreceiver
  · have all {t : Tandem} {blocks : List Block} (written : Written address message first t blocks)
        (hsender : t.sender.result = some (.ok ())) :
        first :: blocks.flatMap Block.frames = segmentation address message := by
      rw [← written.source, ← written.message_eq]
      exact written.emitted.eq_segmentation hsender
    cases h with
    | unsent _ _ emitted phase =>
      exact absurd (phase.symm.trans (emitted.succeeded.mp hsender)) nofun
    | announced written | owed written | granted written | flowing written | received written =>
      exact ⟨first, written.log, all written hsender⟩
  · rcases h.receiver with hrun | ⟨-, -, hlog, hall⟩
    · exact absurd (hrun.symm.trans hreceiver) nofun
    · exact ⟨first, hlog, hall⟩

theorem Course.agreement (h : Course address message first t blocks) :
    Agreement address message t blocks where
  log := h.log
  complete := h.complete
  within := h.within
  counts := h.counts
  sends := h.sends
  sent := h.sent
  whole := h.whole
  bytes hok := by
    rcases h.receiver with hrun | ⟨-, hbytes, -⟩
    · exact absurd (hrun.symm.trans hok) nofun
    · exact hbytes

variable {kind : MessageType} {waitLimit : Option UInt8} {blockSize : UInt8}
  {separation : SeparationTime}
variable {budget budget' rest rest' : Budget} {s : Sender} {r : Receiver}

theorem course_of_create (hs : Sender.create address message kind waitLimit budget = .ok (s, rest))
    (hr : Receiver.create address blockSize separation budget' = .ok (r, rest'))
    (hl : singleLimit < message.length) (hv : separation.isValid = true) :
    ∃ first, Segmented address message first ∧
      Course address message first { sender := s, receiver := r } [] := by
  have he := Sender.emitted_of_create hs
  rw [Sender.create] at hs
  split at hs
  · cases hs
  · next hphysical =>
    split at hs
    · cases hs
    · next hlimit =>
      have hlimit := Nat.lt_of_not_le hlimit
      have hphysical : address.isFunctional = false := by
        simpa [hl] using hphysical
      split at hs
      · cases hs
      · cases hs
        rw [Receiver.create] at hr
        split at hr
        · cases hr
        · cases hr
          obtain ⟨first, hfirst, -⟩ := firstFrame?_spec address hl hlimit
          refine ⟨first, ⟨hphysical, hl, hlimit, hfirst⟩, ?_⟩
          exact .unsent rfl rfl he (if_neg (Nat.not_le.mpr hl))
            ⟨rfl, hv, rfl, rfl, rfl⟩ rfl rfl rfl rfl rfl

/-- However the two ends take turns, neither fails, and they agree on the blocks. -/
theorem blocks_agree {t : Tandem}
    (hs : Sender.create address message kind waitLimit budget = .ok (s, rest))
    (hr : Receiver.create address blockSize separation budget' = .ok (r, rest'))
    (hl : singleLimit < message.length) (hv : separation.isValid = true)
    (run : Relation.ReflTransGen Step { sender := s, receiver := r } t) :
    (∀ e, t.sender.result ≠ some (.error e) ∧ t.receiver.result ≠ some (.error e)) ∧
      ∃ blocks, Agreement address message t blocks := by
  obtain ⟨first, hsegmented, hcourse⟩ := course_of_create hs hr hl hv
  obtain ⟨blocks, hend⟩ := hcourse.run hsegmented run
  exact ⟨hend.succeeds, blocks, hend.agreement⟩

def frameByFrame : Tandem where
  sender := .initial (.physical 0x10 0xF1) ((List.range 20).map UInt8.ofNat) .diagnostics none
  receiver := .initial (.physical 0x10 0xF1) 1 .zero

/-- The first flow control is refused once. Its frame overtakes the confirmation, and meanwhile the
block size is set to zero. -/
theorem run_frameByFrame : ∃ t, Relation.ReflTransGen Step frameByFrame t ∧ t.log.length = 5 ∧
    t.sender.result = some (.ok ()) ∧ t.receiver.result = some (.ok ()) := by
  refine ⟨_, .tail
    (.tail (.tail
      (.tail (.tail (.tail (.tail (.tail (.tail (.tail (.tail (.tail (.tail (.tail (.tail
    (.tail (.tail .refl
      (.send 0 0 true rfl))
      (.take 0 0 ⟨1000⟩ true rfl (.inl rfl) rfl (by decide) (by decide)))
      (.reply 0 0 ⟨1000⟩ false (by decide) rfl))
      (.reply 0 0 ⟨1000⟩ true (by decide) rfl))
      (.hearSender 0 (by decide)))
      (.heed 0 0 true rfl rfl rfl))
      (.send 0 0 true rfl))
      (.take 0 0 ⟨1000⟩ true rfl (.inr ⟨rfl, rfl⟩) rfl (by decide) (by decide)))
      (.setBlockSize 0))
      (.hearReceiver 0 (by decide)))
      (.hearSender 0 (by decide)))
      (.reply 0 0 ⟨1000⟩ true (by decide) rfl))
      (.heed 0 0 true rfl rfl rfl))
      (.send 0 0 true rfl))
      (.hearReceiver 0 (by decide)))
      (.take 0 0 ⟨1000⟩ true rfl (.inr ⟨rfl, rfl⟩) rfl (by decide) (by decide)))
      (.hearSender 0 (by decide)), rfl, rfl, rfl⟩

theorem blocks_agree_frameByFrame : ∃ t, t.log.length = 5 ∧ t.sender.result = some (.ok ()) ∧
    t.receiver.result = some (.ok ()) ∧
    (∀ e, t.sender.result ≠ some (.error e) ∧ t.receiver.result ≠ some (.error e)) ∧
    ∃ blocks, Agreement (.physical 0x10 0xF1) ((List.range 20).map UInt8.ofNat) t blocks := by
  obtain ⟨t, hrun, hlog, hsent, hreceived⟩ := run_frameByFrame
  have hs : Sender.create (.physical 0x10 0xF1) ((List.range 20).map UInt8.ofNat)
      .diagnostics none ⟨1000⟩ =
      .ok (frameByFrame.sender, ⟨948⟩) := rfl
  have hr : Receiver.create (.physical 0x10 0xF1) 1 .zero ⟨1000⟩ =
      .ok (frameByFrame.receiver, ⟨968⟩) := rfl
  exact ⟨t, hlog, hsent, hreceived, blocks_agree hs hr (by decide) rfl hrun⟩

end Tandem
end CanTransport
