import CanTransport.Proofs.Buffering
import CanTransport.Proofs.Keeping
import CanTransport.Proofs.Layout

/-! # The verdict on a first frame

Which frames begin a message is written down here byte by byte, and apart from the receiver. A new
receiver comes to the verdict that these rules give, whatever the frame, the identifier and the
budget.
-/
namespace CanTransport

theorem Budget.reserve_cases {budget : Budget} (ht : budget.remaining ≤ top) (bytes : Nat) :
    (bytes : Int) ≤ budget.remaining ∧ budget.reserve bytes = .ok ⟨budget.remaining - bytes⟩ ∨
      budget.remaining < bytes ∧ ∃ error, budget.reserve bytes = .error error := by
  by_cases hb : (bytes : Int) ≤ budget.remaining
  · exact .inl ⟨hb, reserve_eq hb ht⟩
  · refine .inr ⟨Int.lt_of_not_ge hb, ?_⟩
    unfold reserve take
    split
    · exact ⟨_, if_neg (by omega)⟩
    · exact ⟨_, rfl⟩

theorem PduType.ofByte?_eq_some_iff {kind : PduType} {b : UInt8} :
    ofByte? b = some kind ↔ b.toNat / 16 = kind.code.toNat / 16 := by
  unfold ofByte?
  split
  case h_1 h | h_2 h | h_3 h | h_4 h => cases kind <;> simp [h, code]
  case h_5 h₀ h₁ h₂ h₃ => exact iff_of_false nofun (by cases kind <;> assumption)

namespace Frame
variable {f : Frame} {address : Address} {message bytes : List UInt8} {length : Nat}

def shortLength (f : Frame) : Nat := (f.byte 0).toNat % 16 * 256 + (f.byte 1).toNat

def longLength (f : Frame) : Nat :=
  (f.byte 2).toNat * 0x1000000 + (f.byte 3).toNat * 0x10000 + (f.byte 4).toNat *
    0x100 + (f.byte 5).toNat

/-- The length of a message and its first bytes, in eight bytes. -/
inductive Opens (f : Frame) : Nat → List UInt8 → Prop
  | short (length : f.shortLength ≠ 0) : Opens f f.shortLength (f.data.drop 2)
  | escape (length : f.shortLength = 0) : Opens f f.longLength (f.data.drop 6)

/-- A single frame: its low nibble counts bytes that are there. -/
structure IsSingle (f : Frame) (message : List UInt8) : Prop where
  kind : (f.byte 0).toNat / 16 = 0
  short : (f.byte 0).toNat % 16 ≤ 7
  carried : (f.byte 0).toNat % 16 + 1 ≤ min f.dlc.toNat 8
  bytes : message = (f.data.drop 1).take ((f.byte 0).toNat % 16)

/-- A first frame: full, of a one-to-one conversation, and for a message that no single frame
carries. -/
structure IsFirst (f : Frame) (address : Address) (length : Nat) (bytes : List UInt8) : Prop where
  kind : (f.byte 0).toNat / 16 = 1
  physical : address.isFunctional = false
  full : f.dlc = 8
  opens : f.Opens length bytes
  long : 8 ≤ length

theorem IsSingle.length_eq (h : f.IsSingle message) : message.length = (f.byte 0).toNat % 16 := by
  have hcarried := h.carried
  rw [h.bytes, List.length_take, List.length_drop, f.length_data]
  omega

theorem Opens.unique {length' : Nat} {bytes' : List UInt8} (h : f.Opens length bytes)
    (h' : f.Opens length' bytes') :
    length = length' ∧ bytes = bytes' := by
  cases h with
  | short hs =>
    cases h' with
    | short => exact ⟨rfl, rfl⟩
    | escape hl => exact absurd hl hs
  | escape hl =>
    cases h' with
    | short hs => exact absurd hl hs
    | escape => exact ⟨rfl, rfl⟩

theorem Opens.length_le (h : f.Opens length bytes) : bytes.length ≤ 6 := by
  cases h <;> simp [f.length_data]

theorem pduType?_eq (h : 1 ≤ f.dlc.toNat) : f.pduType? = PduType.ofByte? (f.byte 0) := by
  have hpos : 1 ≤ f.payload.length := by
    rw [f.length_payload]
    omega
  cases hp : f.payload with
  | nil => simp [hp] at hpos
  | cons b rest => rw [pduType?_of_payload hp, byte_zero_of_payload hp]

theorem dlc_pos_of_pduType? {kind : PduType} (h : f.pduType? = some kind) : 1 ≤ f.dlc.toNat := by
  have hpos := length_payload_pos h
  rw [f.length_payload] at hpos
  omega

theorem pduType?_eq_some_iff {kind : PduType} :
    f.pduType? = some kind ↔ 1 ≤ f.dlc.toNat ∧ (f.byte 0).toNat / 16 = kind.code.toNat / 16 := by
  constructor
  · intro h
    have hpos := dlc_pos_of_pduType? h
    exact ⟨hpos, PduType.ofByte?_eq_some_iff.mp (pduType?_eq hpos ▸ h)⟩
  · rintro ⟨hpos, hkind⟩
    rw [pduType?_eq hpos, PduType.ofByte?_eq_some_iff.mpr hkind]

theorem data_eq (f : Frame) :
    f.data = [f.byte 0, f.byte 1, f.byte 2, f.byte 3, f.byte 4, f.byte 5, f.byte 6, f.byte 7] := by
  unfold byte
  match f.data, f.length_data with
  | [_, _, _, _, _, _, _, _], _ => rfl

theorem payload_of_full (h : f.dlc = 8) : f.payload = f.data := by
  rw [payload, h]
  exact List.take_of_length_le (Nat.le_of_eq f.length_data)

theorem announced?_full (h : f.dlc = 8) :
    ∃ offset, Pdu.announced? f.payload =
      some (if f.shortLength = 0 then f.longLength else f.shortLength, offset) ∧
      f.Opens (if f.shortLength = 0 then f.longLength else f.shortLength) (f.data.drop offset) := by
  have hlow : (lowNibble (f.byte 0)).toNat * 256 + (f.byte 1).toNat = f.shortLength := by
    rw [lowNibble_toNat, shortLength]
  rw [payload_of_full h]
  by_cases hs : f.shortLength = 0
  · refine ⟨6, ?_, by rw [if_pos hs]; exact .escape hs⟩
    rw [data_eq, Pdu.announced?_long (hlow.trans hs), if_pos hs]
    rfl
  · refine ⟨2, ?_, by rw [if_neg hs]; exact .short hs⟩
    rw [data_eq, Pdu.announced?_short (hlow ▸ hs), if_neg hs, hlow]

end Frame

/-- What becomes of the first frame: the whole message, the beginning of one, one that the budget
does not hold (a first frame is answered then), or something that begins no message. -/
inductive Verdict
  | whole (message : List UInt8)
  | begun (length : Nat) (bytes : List UInt8)
  | unaffordable (answered : Bool)
  | unexpected

namespace Verdict

/-- The rules. -/
inductive Judged (address : Address) (remaining : Int) (f : Frame) : Verdict → Prop
  | whole {message : List UInt8} (form : f.IsSingle message)
      (paid : (message.length : Int) ≤ remaining) :
      Judged address remaining f (.whole message)
  | begun {length : Nat} {bytes : List UInt8} (form : f.IsFirst address length bytes)
      (paid : (length : Int) ≤ remaining) :
      Judged address remaining f (.begun length bytes)
  | single {message : List UInt8} (form : f.IsSingle message)
      (unpaid : remaining < message.length) :
      Judged address remaining f (.unaffordable false)
  | first {length : Nat} {bytes : List UInt8} (form : f.IsFirst address length bytes)
      (unpaid : remaining < length) :
      Judged address remaining f (.unaffordable true)
  | unexpected (single : ∀ message, ¬f.IsSingle message)
      (first : ∀ length bytes, ¬f.IsFirst address length bytes) :
      Judged address remaining f .unexpected

/-- The step ends the reception with an error and leaves the budget alone. -/
def Refuses (budget : Budget) (step : Move Receiver × Budget) (error : TransferError) : Prop :=
  step.2 = budget ∧ ∀ accepted after, ∃ r, step.1.finish accepted after =
    (r, .finished (.error error)) ∧ r.phase = .failed ∧ r.result = some (.error error) ∧
    r.message = []

/-- What a step does that comes to the verdict, whether the frame that it offers is taken or not. -/
def Reached (address : Address) (budget : Budget) (step : Move Receiver × Budget) : Verdict → Prop
  | whole message => step.1.frame? = none ∧ step.2.remaining = budget.remaining - message.length ∧
      ∀ accepted after, ∃ r, step.1.finish accepted after = (r, .finished (.ok ())) ∧
        r.phase = .received ∧ r.result = some (.ok ()) ∧ r.message = message
  | begun length bytes => step.1.frame? = none ∧ step.2.remaining = budget.remaining - length ∧
      ∀ accepted after, ∃ r, step.1.finish accepted after = (r, .firstFrame length) ∧
        r.phase = .sendFlow ∧ r.result = none ∧ r.expected = length ∧ r.taken = bytes
  | unaffordable answered => Refuses budget step .bufferOverflow ∧
      step.1.frame? = if answered then some (.carrying address.reversed [0x32, 0, 0]) else none
  | unexpected => Refuses budget step .unexpectedPdu ∧ step.1.frame? = none

variable {address : Address} {remaining : Int} {f : Frame} {v w : Verdict} {budget : Budget}
  {step : Move Receiver × Budget}

/-- The rules give one verdict at most. -/
theorem Judged.unique (hv : Judged address remaining f v) (hw : Judged address remaining f w) :
    v = w := by
  have apart {message bytes : List UInt8} {length : Nat} (hs : f.IsSingle message)
      (hf : f.IsFirst address length bytes) : False :=
    absurd (hs.kind.symm.trans hf.kind) nofun
  cases hv with
  | whole form paid =>
    cases hw with
    | whole form' => rw [form.bytes, form'.bytes]
    | single form' unpaid =>
      exact absurd (form.bytes.trans form'.bytes.symm ▸ paid) (Int.not_le.mpr unpaid)
    | begun form' | first form' => exact (apart form form').elim
    | unexpected single => exact absurd form (single _)
  | single form unpaid =>
    cases hw with
    | whole form' paid =>
      exact absurd (form'.bytes.trans form.bytes.symm ▸ paid) (Int.not_le.mpr unpaid)
    | single => rfl
    | begun form' | first form' => exact (apart form form').elim
    | unexpected single => exact absurd form (single _)
  | begun form paid =>
    cases hw with
    | whole form' | single form' => exact (apart form' form).elim
    | begun form' =>
      obtain ⟨rfl, rfl⟩ := form.opens.unique form'.opens
      rfl
    | first form' unpaid =>
      exact absurd ((form.opens.unique form'.opens).1 ▸ paid) (Int.not_le.mpr unpaid)
    | unexpected single first => exact absurd form (first _ _)
  | first form unpaid =>
    cases hw with
    | whole form' | single form' => exact (apart form' form).elim
    | begun form' paid =>
      exact absurd ((form'.opens.unique form.opens).1 ▸ paid) (Int.not_le.mpr unpaid)
    | first => rfl
    | unexpected single first => exact absurd form (first _ _)
  | unexpected single first =>
    cases hw with
    | whole form' | single form' => exact absurd form' (single _)
    | begun form' | first form' => exact absurd form' (first _ _)
    | unexpected => rfl

def outcome : Verdict → StepOutcome
  | whole _ => .finished (.ok ())
  | begun length _ => .firstFrame length
  | unaffordable _ => .finished (.error .bufferOverflow)
  | unexpected => .finished (.error .unexpectedPdu)

theorem Reached.outcome_eq (h : Reached address budget step v) :
    (step.1.finish true 0).2 = v.outcome := by
  cases v with
  | whole | begun =>
    obtain ⟨_, hr, _⟩ := h.2.2 true 0
    rw [hr, outcome]
  | unaffordable | unexpected =>
    obtain ⟨_, hr, _⟩ := h.1.2 true 0
    rw [hr, outcome]

/-- A step comes to one verdict at most. -/
theorem Reached.unique (hv : Reached address budget step v) (hw : Reached address budget step w) :
    v = w := by
  have houtcome := hv.outcome_eq.symm.trans hw.outcome_eq
  cases v with
  | whole message =>
    cases w with
    | whole message' =>
      obtain ⟨r, hr, -, -, hm⟩ := hv.2.2 true 0
      obtain ⟨r', hr', -, -, hm'⟩ := hw.2.2 true 0
      cases hr.symm.trans hr'
      rw [← hm, ← hm']
    | begun | unaffordable | unexpected => cases houtcome
  | begun length bytes =>
    cases w with
    | begun length' bytes' =>
      obtain ⟨r, hr, -, -, -, hb⟩ := hv.2.2 true 0
      obtain ⟨r', hr', -, -, -, hb'⟩ := hw.2.2 true 0
      cases hr.symm.trans hr'
      rw [← hb, ← hb']
    | whole | unaffordable | unexpected => cases houtcome
  | unaffordable answered =>
    cases w with
    | unaffordable answered' =>
      have hf := hv.2.symm.trans hw.2
      cases answered <;> cases answered' <;> first | rfl | cases hf
    | whole | begun | unexpected => cases houtcome
  | unexpected =>
    cases w with
    | unexpected => rfl
    | whole | begun | unaffordable => cases houtcome

end Verdict

namespace Receiver
open Verdict
variable {address : Address} {blockSize : UInt8} {separation : SeparationTime} {budget : Budget}
  {now : Micros} {f : Frame} {r : Receiver} {message bytes : List UInt8} {length : Nat}

theorem step_initial (address : Address) (blockSize : UInt8) (separation : SeparationTime)
    (now : Micros) (f : Frame) (budget : Budget) :
    (initial address blockSize separation).step now (some f) budget =
      ((initial address blockSize separation).noteReply now).openWith now f budget := by
  rw [step_act rfl rfl rfl]
  rfl

theorem refuses_fail (r : Receiver) (now : Micros) (budget : Budget) (error : TransferError) :
    Refuses budget (r.fail now error, budget) error :=
  ⟨rfl, fun _ _ => ⟨_, rfl, rfl, rfl, rfl⟩⟩

theorem refuses_reject (r : Receiver) (now : Micros) (budget : Budget) :
    Refuses budget (r.reject now, budget) .bufferOverflow :=
  ⟨rfl, fun _ _ => ⟨_, rfl, rfl, rfl, rfl⟩⟩

theorem openWith_single (form : f.IsSingle message) (ht : budget.remaining ≤ Budget.top) :
    ∃ v, Judged address budget.remaining f v ∧
      Reached address budget (r.openWith now f budget) v := by
  have hcarried := form.carried
  have hshort := form.short
  have hlow := lowNibble_toNat (f.byte 0)
  have hlength := form.length_eq
  have hpayload := f.length_payload
  have hkind : f.pduType? = some .singleFrame :=
    Frame.pduType?_eq_some_iff.mpr ⟨by omega, form.kind⟩
  have hbytes : (f.payload.drop 1).take (lowNibble (f.byte 0)).toNat = message := by
    rw [form.bytes, Frame.payload, List.drop_take, List.take_take, hlow, Nat.min_eq_left (by omega)]
  have hfits : ¬(Pdu.singleLimit < (lowNibble (f.byte 0)).toNat ∨ f.payload.length <
      (lowNibble (f.byte 0)).toNat + 1) := by
    simp only [Pdu.singleLimit]
    omega
  have hopen : r.openWith now f budget = r.takeSingle now f budget := by
    rw [openWith, hkind]
  rw [hopen, takeSingle, if_neg hfits, hlow, ← hlength]
  obtain ⟨paid, hreserve⟩ | ⟨unpaid, error, hreserve⟩ := Budget.reserve_cases ht message.length
  · rw [hreserve]
    refine ⟨_, .whole form paid, rfl, rfl, fun _ _ => ⟨_, rfl, rfl, rfl, ?_⟩⟩
    change ((f.payload.drop 1).take message.length).take message.length = message
    rw [List.take_take, Nat.min_self, hlength, ← hlow, hbytes]
  · rw [hreserve]
    exact ⟨_, .single form unpaid, r.refuses_fail now budget _, rfl⟩

/-- A full first frame announces something; whether it opens the reception is a matter of the length
and the budget. -/
theorem openWith_first (hkind : f.pduType? = some .firstFrame) (ht : budget.remaining ≤ Budget.top)
    (hr : r.address = address) (hrunning : r.result = none) :
    ∃ v, Judged address budget.remaining f v ∧
      Reached address budget (r.openWith now f budget) v := by
  have hcode := (Frame.pduType?_eq_some_iff.mp hkind).2
  have hsingle (message : List UInt8) : ¬f.IsSingle message :=
    fun h => absurd (h.kind.symm.trans hcode) (by decide)
  have hopen : r.openWith now f budget = r.takeFirst now f budget := by
    rw [openWith, hkind]
  rw [hopen, takeFirst, hr]
  split
  · next hform =>
    refine ⟨_, .unexpected hsingle fun _ _ h => ?_, r.refuses_fail now budget _, rfl⟩
    rcases hform with functional | partly
    · exact absurd (h.physical.symm.trans functional) Bool.false_ne_true
    · exact partly h.full
  · next hform =>
    obtain ⟨physical, full⟩ := not_or.mp hform
    have physical := Bool.of_not_eq_true physical
    have full := Decidable.not_not.mp full
    obtain ⟨offset, hannounced, hopens⟩ := Frame.announced?_full full
    generalize (if f.shortLength = 0 then f.longLength else f.shortLength) =
      length at hannounced hopens
    rw [hannounced]
    dsimp only
    split
    · next hs =>
      refine ⟨_, .unexpected hsingle fun _ _ h => ?_, r.refuses_fail now budget _, rfl⟩
      exact absurd (h.opens.unique hopens).1
        (by have := h.long; simp only [Pdu.singleLimit] at hs; omega)
    · next hs =>
      have form : f.IsFirst address length (f.data.drop offset) :=
        ⟨hcode, physical, full, hopens, Nat.lt_of_not_le hs⟩
      obtain ⟨paid, hreserve⟩ | ⟨unpaid, error, hreserve⟩ := Budget.reserve_cases ht length
      · rw [hreserve]
        refine ⟨_, .begun form paid, rfl, rfl, fun _ _ => ⟨_, rfl, rfl, hrunning, rfl, ?_⟩⟩
        have hfew := hopens.length_le
        rw [Frame.payload_of_full full]
        exact List.take_of_length_le (by have := form.long; omega)
      · rw [hreserve]
        refine ⟨_, .first form unpaid, r.refuses_reject now budget, ?_⟩
        rw [← hr]
        rfl

theorem openWith_other (r : Receiver) (now : Micros) (hsingle : ∀ message, ¬f.IsSingle message)
    (hfirst : f.pduType? ≠ some .firstFrame) :
    Refuses budget (r.openWith now f budget) .unexpectedPdu ∧
      (r.openWith now f budget).1.frame? = none := by
  unfold openWith
  split
  · next hkind =>
    have hlow := lowNibble_toNat (f.byte 0)
    have hpayload := f.length_payload
    have hfits : Pdu.singleLimit < (lowNibble (f.byte 0)).toNat ∨
        f.payload.length < (lowNibble (f.byte 0)).toNat + 1 := by
      refine Decidable.byContradiction fun hfits =>
        hsingle _ ⟨(Frame.pduType?_eq_some_iff.mp hkind).2, ?_, ?_, rfl⟩
      all_goals simp only [Pdu.singleLimit] at hfits; omega
    rw [takeSingle, if_pos hfits]
    exact ⟨r.refuses_fail now budget _, rfl⟩
  · next hkind => exact absurd hkind hfirst
  · exact ⟨r.refuses_fail now budget _, rfl⟩

/-- On the first frame that it is given, a new receiver comes to the verdict that the rules give and
to no other, whatever the frame, its identifier and the budget. -/
theorem first_verdict {before paid : Budget}
    (hcreate : create address blockSize separation before = .ok (r, paid))
    (ht : budget.remaining ≤ Budget.top) (now : Micros) (f : Frame) :
    ∃ v, Judged address budget.remaining f v ∧
      Reached address budget (r.step now (some f) budget) v ∧
      (∀ w, Judged address budget.remaining f w → w = v) ∧
      ∀ w, Reached address budget (r.step now (some f) budget) w → w = v := by
  suffices h : ∃ v, Judged address budget.remaining f v ∧
      Reached address budget (r.step now (some f) budget) v by
    obtain ⟨v, hjudged, hreached⟩ := h
    exact ⟨v, hjudged, hreached, fun _ hw => hw.unique hjudged, fun _ hw => hw.unique hreached⟩
  obtain ⟨rfl, -⟩ := create_ok hcreate
  rw [step_initial]
  by_cases hfirst : f.pduType? = some .firstFrame
  · exact openWith_first hfirst ht rfl rfl
  · by_cases hsingle : ∃ message, f.IsSingle message
    · obtain ⟨message, form⟩ := hsingle
      exact openWith_single form ht
    · have hnone : ∀ message, ¬f.IsSingle message := not_exists.mp hsingle
      refine ⟨.unexpected, .unexpected hnone fun length bytes form =>
        hfirst ?_, openWith_other _ now hnone hfirst⟩
      exact Frame.pduType?_eq_some_iff.mpr ⟨by rw [form.full]; decide, form.kind⟩

/-- A budget of nineteen bytes does not hold a message of twenty. -/
theorem first_verdict_unaffordable :
    Reached ⟨0x18DA2211⟩ ⟨19⟩ ((initial ⟨0x18DA2211⟩ 8 .zero).step 5
      (some (.carrying ⟨0x18DA2211⟩ [0x10, 20, 1, 2, 3, 4, 5, 6])) ⟨19⟩) (.unaffordable true) := by
  have hcreate : create ⟨0x18DA2211⟩ 8 .zero ⟨51⟩ = .ok (initial ⟨0x18DA2211⟩ 8 .zero, ⟨19⟩) := rfl
  obtain ⟨v, -, hreached, hrules, -⟩ :=
    first_verdict hcreate (show Budget.remaining ⟨19⟩ ≤ Budget.top by decide) 5
    (.carrying ⟨0x18DA2211⟩ [0x10, 20, 1, 2, 3, 4, 5, 6])
  have hopens : (Frame.carrying ⟨0x18DA2211⟩ [0x10, 20, 1, 2, 3, 4, 5, 6]).Opens
      20 [1, 2, 3, 4, 5, 6] :=
    .short (by decide)
  rw [hrules (.unaffordable true) (.first ⟨rfl, rfl, rfl, hopens, by decide⟩ (by decide))]
  exact hreached

end Receiver
end CanTransport
