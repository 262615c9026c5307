import CanTransport.Endpoint.Receiver
import CanTransport.Proofs.Segmentation

/-! # What a receiver makes of the frames of one message

A receiver that is handed frames of one message, none earlier than one handed before, either fails
or ends with that message. Sequence numbers repeat after sixteen frames, so they alone do not tell
which frame has come; but frames left out are never made up for, because every frame accepted moves
the receiver at least one frame on and brings seven bytes at most.
-/
namespace CanTransport.Receiver
open Pdu

structure Gathered (message : List UInt8) (r : Receiver) (count last : Nat) : Prop where
  expected : r.expected = message.length
  count_le : count ≤ last
  congruent : last % 16 = count % 16
  sequence : r.sequence.toNat = (count + 1) % 16
  taken_le : r.taken.length ≤ carried message.length + chunkSize * count
  taken : count = last → r.taken = message.take (carried message.length + chunkSize * count)
  last_lt : 0 < last → carried message.length + chunkSize * (last - 1) < message.length

/-- How a receiver stands that was handed frames of `message` up to number `last`. -/
def Follows (message : List UInt8) (r : Receiver) (last : Nat) : Prop :=
  match r.phase with
  | .fresh => r.result = none ∧ r.held = none
  | .sendFlow | .awaitConsecutive =>
    r.result = none ∧ r.held = none ∧ singleLimit < message.length ∧
      ∃ count, r.Gathered message count last
  | .awaitFlowAck =>
    r.result = none ∧ singleLimit < message.length ∧ ∃ count, r.Gathered message count last
  | .received => r.held = none ∧ r.result = some (.ok ()) ∧ r.message = message
  | .failed => r.held = none ∧ ∃ error, r.result = some (.error error)

def Settled (message : List UInt8) (r : Receiver) (last : Nat) : Prop :=
  r.Follows message last ∧ r.held = none

variable {message : List UInt8} {r : Receiver} {last : Nat} {now after : Micros}

theorem Gathered.congr {r' : Receiver} {count : Nat} (h : r.Gathered message count last)
    (he : r'.expected = r.expected) (ht : r'.taken = r.taken) (hs : r'.sequence = r.sequence) :
    r'.Gathered message count last where
  expected := he.trans h.expected
  count_le := h.count_le
  congruent := h.congruent
  sequence := hs ▸ h.sequence
  taken_le := ht ▸ h.taken_le
  taken hc := ht ▸ h.taken hc
  last_lt := h.last_lt

theorem Follows.congr {r' : Receiver} (h : r.Follows message last) (hp : r'.phase = r.phase)
    (hr : r'.result = r.result) (hh : r'.held = r.held) (he : r'.expected = r.expected)
    (ht : r'.taken = r.taken) (hs : r'.sequence = r.sequence) : r'.Follows message last := by
  have hm : r'.message = r.message := by simp only [Receiver.message, hr, ht, he]
  unfold Follows at *
  rw [hp]
  cases hph : r.phase
  all_goals
    simp only [hph, hr, hh, hm] at h ⊢
  case sendFlow | awaitConsecutive =>
    obtain ⟨hr, hh, hs', count, hg⟩ := h
    exact ⟨hr, hh, hs', count, hg.congr he ht hs⟩
  case awaitFlowAck =>
    obtain ⟨hr, hs', count, hg⟩ := h
    exact ⟨hr, hs', count, hg.congr he ht hs⟩
  all_goals exact h

theorem settled_fail (now : Micros) (error : TransferError) :
    (r.finish now (.error error)).Settled message last :=
  ⟨⟨rfl, error, rfl⟩, rfl⟩

theorem settled_complete (ht : r.taken.take r.expected = message) :
    (r.finish now (.ok ())).Settled message last := ⟨⟨rfl, rfl, ht⟩, rfl⟩

theorem take_append_chunk {k : Nat} (hk : k < message.length) :
    message.take k ++ ((message.drop k).take chunkSize).take
      (message.length - (message.take k).length) =
      message.take (k + chunkSize) := by
  have hlen : (message.take k).length = k := by
    rw [List.length_take]
    omega
  have hrest : ((message.drop k).take chunkSize).length ≤ message.length - k := by
    rw [List.length_take, List.length_drop]
    omega
  rw [hlen, List.take_of_length_le hrest, List.take_add]

theorem Gathered.append {count i : Nat} {bytes : List UInt8} (blockCount : UInt8)
    (h : r.Gathered message count last) (hi : last ≤ i) (hnum : (i + 1) % 16 = (count + 1) % 16)
    (hbytes : bytes = (message.drop (carried message.length + chunkSize * i)).take chunkSize)
    (hbefore : carried message.length + chunkSize * i < message.length) :
    Gathered message { r with
      taken := r.taken ++ bytes.take (r.expected - r.taken.length)
      sequence := nextSequence r.sequence
      framesInBlock := blockCount } (count + 1) (i + 1) where
  expected := h.expected
  count_le := by
    have := h.count_le
    omega
  congruent := hnum
  sequence := by
    rw [nextSequence_toNat, h.sequence]
    omega
  taken_le := by
    have hlen : (bytes.take (r.expected - r.taken.length)).length ≤ chunkSize := by
      rw [hbytes]
      exact Nat.le_trans (List.length_take_le' _ _) (List.length_take_le _ _)
    have := h.taken_le
    rw [List.length_append, Nat.mul_succ]
    omega
  taken hc := by
    have hle := h.count_le
    have hcl : count = last := by omega
    have hil : i = count := by omega
    rw [hbytes, h.taken hcl, h.expected, hil, take_append_chunk (hil ▸ hbefore),
      Nat.mul_succ, Nat.add_assoc]
  last_lt _ := hbefore

/-- A reception with as many bytes as announced has accepted every frame there is. -/
theorem Gathered.take_eq {count : Nat} (h : r.Gathered message count last) (hl : 0 < last)
    (hlen : r.expected ≤ r.taken.length) : r.taken.take r.expected = message := by
  have hle := h.count_le
  have hlt := h.last_lt hl
  have htl := h.taken_le
  rw [h.expected] at hlen ⊢
  simp only [chunkSize] at hlt htl
  have hc : count = last := by omega
  have hall : r.taken = message := by
    rw [h.taken hc]
    apply List.take_of_length_le
    simp only [chunkSize]
    omega
  rw [hall, List.take_length]

/-- A frame that is not earlier than the last one ends the reception or is taken in. -/
theorem Gathered.consume {count i : Nat} {f : Frame} (h : r.Gathered message count last)
    (hp : r.phase = .awaitConsecutive) (hr : r.result = none) (hh : r.held = none)
    (hs : singleLimit < message.length) (hi : last ≤ i) (hf : IsSegment message i f) :
    (r.consume now f).Settled message i := by
  cases hf with
  | single hle => omega
  | first _ hkind =>
    rw [Receiver.consume, if_pos (by simp [hkind])]
    exact settled_fail now _
  | @consecutive i f _ hkind hnumber hbytes hbefore =>
    rw [Receiver.consume, if_neg (by simp [hkind])]
    by_cases hseq : lowNibble (f.byte 0) = r.sequence
    · have hnum : (i + 1) % 16 = (count + 1) % 16 := by rw [← hnumber, hseq, h.sequence]
      have hlt : last ≤ i := by
        have := h.congruent
        omega
      rw [if_neg (by simp [hseq])]
      have hg := h.append (r.framesInBlock + 1) hlt hnum hbytes hbefore
      dsimp only
      split
      · next hlen => exact settled_complete (hg.take_eq (Nat.succ_pos i) hlen)
      · split
        · exact ⟨⟨hr, hh, hs, count + 1, hg.congr rfl rfl rfl⟩, hh⟩
        · refine ⟨?_, hh⟩
          simp only [Follows, hp]
          exact ⟨hr, hh, hs, count + 1, hg.congr rfl rfl rfl⟩
    · rw [if_pos hseq]
      exact settled_fail now _

theorem takeSingle_settled {f : Frame} (now : Micros) (budget : Budget)
    (hlength : (lowNibble (f.byte 0)).toNat = message.length) (hbytes : f.payload.drop 1 = message)
    (accepted : Bool) (after : Micros) :
    (((r.takeSingle now f budget).1).finish accepted after).1.Settled message last := by
  unfold takeSingle
  dsimp only
  split
  · exact settled_fail now _
  · split
    · exact settled_fail now _
    · apply settled_complete
      rw [hlength, hbytes, List.take_length, List.take_length]

theorem takeFirst_settled {f : Frame} {offset : Nat} (now : Micros) (budget : Budget)
    (hr : r.result = none) (hh : r.held = none) (hs : singleLimit < message.length)
    (hlength : announced? f.payload = some (message.length, offset))
    (hbytes : f.payload.drop offset = message.take (carried message.length))
    (accepted : Bool) (after : Micros) :
    (((r.takeFirst now f budget).1).finish accepted after).1.Settled message 0 := by
  unfold takeFirst
  split
  · exact settled_fail now _
  · simp only [hlength]
    split
    · exact settled_fail now _
    · split
      · exact settled_fail now _
      · refine ⟨⟨hr, hh, hs, 0, rfl, Nat.le_refl 0, rfl, rfl, ?_, fun _ => ?_, fun h =>
          absurd h (Nat.lt_irrefl 0)⟩, hh⟩
        · change ((f.payload.drop offset).take message.length).length ≤ _
          rw [hbytes, List.length_take, List.length_take]
          omega
        · change (f.payload.drop offset).take message.length = _
          rw [hbytes, List.take_of_length_le (by rw [List.length_take]; omega)]
          rfl

theorem openWith_settled {f : Frame} {i : Nat} (now : Micros) (budget : Budget)
    (hr : r.result = none) (hh : r.held = none) (hf : IsSegment message i f)
    (accepted : Bool) (after : Micros) :
    (((r.openWith now f budget).1).finish accepted after).1.Settled message i := by
  cases hf with
  | single _ hkind hlength hbytes =>
    simp only [openWith, hkind]
    exact takeSingle_settled now budget hlength hbytes accepted after
  | first hs hkind hlength hbytes =>
    simp only [openWith, hkind]
    exact takeFirst_settled now budget hr hh hs hlength hbytes accepted after
  | consecutive _ hkind =>
    simp only [openWith, hkind]
    exact settled_fail now _

/-- From `r` to `r'` the last frame stays the same, perhaps with `frame` held back, or else `frame`
is let in and nothing is held back before or after. -/
def Heeds (message : List UInt8) (last : Nat) (frame : Option Frame) (r r' : Receiver) : Prop :=
  r'.Follows message last ∧ (r'.held = none ∨ r'.held = r.held.or frame) ∨
    r.held = none ∧ ∃ f, frame = some f ∧ ∀ i, last ≤ i → IsSegment message i f →
    r'.Settled message i

theorem heeds_fail (frame : Option Frame) (now : Micros) (error : TransferError) :
    Heeds message last frame r (r.finish now (.error error)) :=
  .inl ⟨(settled_fail now error).1, .inl rfl⟩

theorem sendFlow_heeds (h : r.Follows message last) (hp : r.phase = .sendFlow)
    (frame : Option Frame) (accepted : Bool) :
    Heeds message last frame r ((r.sendFlow now).finish accepted after).1 := by
  have hf := h
  simp only [Follows, hp] at hf
  obtain ⟨hr, hh, hs, count, hg⟩ := hf
  left
  cases accepted with
  | true => exact ⟨⟨hr, hs, count, hg.congr rfl rfl rfl⟩, .inl hh⟩
  | false => exact ⟨h.congr rfl rfl rfl rfl rfl rfl, .inl hh⟩

theorem hold_heeds {f : Frame} (h : r.Follows message last) (hp : r.phase = .awaitFlowAck) :
    Heeds message last (some f) r (r.hold f) := by
  have hf := h
  simp only [Follows, hp] at hf
  obtain ⟨hr, hs, count, hg⟩ := hf
  refine .inl ⟨?_, .inr rfl⟩
  simp only [Follows, hold, hp]
  exact ⟨hr, hs, count, hg.congr rfl rfl rfl⟩

theorem act_heeds {frame : Option Frame} {budget : Budget} (h : r.Follows message last)
    (accepted : Bool) :
    Heeds message last frame r (((r.act now frame budget).1).finish accepted after).1 := by
  have hf := h
  unfold act
  split
  · next f hp =>
    simp only [Follows, hp] at hf
    exact .inr ⟨hf.2, f, rfl, fun i _ hi => openWith_settled now budget hf.1 hf.2 hi accepted after⟩
  · exact heeds_fail none now _
  · next hp => exact sendFlow_heeds h hp _ accepted
  · next hp => exact hold_heeds h hp
  · next f hp =>
    simp only [Follows, hp] at hf
    obtain ⟨hr, hh, hs, count, hg⟩ := hf
    exact .inr ⟨hh, f, rfl, fun i hle hi => hg.consume hp hr hh hs hle hi⟩
  · next hp =>
    simp only [Follows, hp] at hf
    exact .inl ⟨h, .inl hf.1⟩
  · next hp =>
    simp only [Follows, hp] at hf
    exact .inl ⟨h, .inl hf.1⟩
  · exact .inl ⟨h, .inr (by rw [Move.finish_rest, Option.or_none])⟩

/-- A step heeds the frame handed over, if one is, in any phase and however the clock stands. -/
theorem step_heeds {frame : Option Frame} {budget : Budget} (h : r.Follows message last)
    (accepted : Bool) :
    Heeds message last frame r (((r.step now frame budget).1).finish accepted after).1 := by
  unfold step
  split
  · next result hr =>
    refine .inl ⟨h, .inl ?_⟩
    rw [Move.finish_rest]
    cases hp : r.phase <;> simp_all [Follows]
  · split
    · exact heeds_fail frame now _
    · exact act_heeds (r := r.noteReply now) (h.congr rfl rfl rfl rfl rfl rfl) accepted

/-- An outcome lets in the frame held back, if it confirms the flow control, and changes the last
frame in no other way. -/
theorem onAck_heeds (h : r.Follows message last) (now : Micros) (ack : Ack) :
    (r.onAck now ack).Follows message last ∧
    ((r.onAck now ack).held = none ∨ (r.onAck now ack).held = r.held) ∨
      ∃ f, r.held = some f ∧ ∀ i, last ≤ i → IsSegment message i f →
        (r.onAck now ack).Settled message i := by
  have hf := h
  unfold onAck
  split
  · exact .inl ⟨h, .inr rfl⟩
  · exact .inl ⟨h, .inr rfl⟩
  · next hp =>
    simp only [Follows, hp] at hf
    obtain ⟨hr, hs, count, hg⟩ := hf
    dsimp only
    split
    · next f hh =>
      exact .inr ⟨f, hh, fun i hle hi =>
        Gathered.consume (hg.congr rfl rfl rfl) rfl hr rfl hs hle hi⟩
    · exact .inl ⟨⟨hr, rfl, hs, count, hg.congr rfl rfl rfl⟩, .inl rfl⟩
  · exact .inl ⟨(settled_fail now _).1, .inl rfl⟩
  · exact .inl ⟨h, .inr rfl⟩

end CanTransport.Receiver
