import CanTransport.Proofs.Moves
import CanTransport.Station.Basic

/-! # What a handle says stays true

The address, role and kind of an endpoint never change, and numbers are never given twice. A handle
taken once therefore never names an endpoint that it does not describe.
-/
namespace CanTransport

namespace Receiver
variable {r : Receiver} {now after : Micros} {budget : Budget} {frame : Option Frame}
  {accepted : Bool}

theorem address_create {address : Address} {blockSize : UInt8} {separation : SeparationTime}
    {rest : Budget} (h : create address blockSize separation budget = .ok (r, rest)) :
    r.address = address := by
  rw [create] at h
  split at h
  · cases h
  · cases h
    rfl

theorem Consumes.address {f : Frame} {r' : Receiver} (h : r.Consumes now f r') :
    r'.address = r.address := by
  cases h <;> rfl

theorem address_consume (r : Receiver) (now : Micros) (f : Frame) :
    (r.consume now f).address = r.address :=
  (r.consume_consumes now f).address

theorem Does.address {move : Move Receiver × Budget} (h : r.Does now frame budget move) :
    (move.1.finish accepted after).1.address = r.address := by
  cases h with
  | offers => cases accepted <;> rfl
  | consumes => exact address_consume _ now _
  | closed | expires | fails | rejects | single | first | holds | waits | stuck => rfl

theorem address_step (r : Receiver) (now after : Micros) (frame : Option Frame) (budget : Budget)
    (accepted : Bool) :
    (((r.step now frame budget).1).finish accepted after).1.address = r.address :=
  (r.step_does now frame budget).address

theorem Learns.address {ack : Ack} {r' : Receiver} (h : r.Learns now ack r') :
    r'.address = r.address := by
  cases h with
  | replays => exact address_consume _ now _
  | closed | fails | unasked | confirmed => rfl

theorem address_onAck (r : Receiver) (now : Micros) (ack : Ack) :
    (r.onAck now ack).address = r.address :=
  (r.onAck_learns now ack).address

end Receiver

theorem Move.finish_map_eq {σ τ : Type} (f : σ → τ) (m : Move σ)
    (accepted : Bool) (after : Micros) :
    (m.map f).finish accepted after =
      (f (m.finish accepted after).1, (m.finish accepted after).2) := by
  cases m <;> rfl

theorem Move.written_map {σ τ : Type} (f : σ → τ) (m : Move σ) (accepted : Bool) :
    (m.map f).written accepted = m.written accepted := by
  cases m <;> rfl

namespace Endpoint

theorem handle_sender {s s' : Sender} (h : s'.subject = s.subject) (id : EndpointId) :
    (sender s').handle id = (sender s).handle id := by
  obtain ⟨ha, -, hk⟩ : s'.address = s.address ∧ s'.message = s.message ∧ s'.kind = s.kind := by
    simpa [Sender.subject] using h
  simp [handle, address, role, kind, ha, hk]

theorem handle_receiver {r r' : Receiver} (h : r'.address = r.address) (id : EndpointId) :
    (receiver r').handle id = (receiver r).handle id := by
  simp [handle, address, role, kind, h]

theorem finish_map {σ τ : Type} (f : σ → τ) (m : Move σ) (accepted : Bool) (after : Micros) :
    ((m.map f).finish accepted after).1 = f (m.finish accepted after).1 := by
  rw [Move.finish_map_eq]

theorem handle_step (r : Endpoint) (id : EndpointId) (now after : Micros) (frame : Option Frame)
    (budget : Budget) (accepted : Bool) :
    (((r.step now frame budget).1).finish accepted after).1.handle id = r.handle id := by
  cases r with
  | sender s =>
    simp only [step, finish_map]
    exact handle_sender (Sender.subject_step s now after frame accepted) id
  | receiver r =>
    simp only [step, finish_map]
    exact handle_receiver (Receiver.address_step r now after frame budget accepted) id

theorem handle_onAck (r : Endpoint) (id : EndpointId) (now : Micros) (ack : Ack) :
    (r.onAck now ack).handle id = r.handle id := by
  cases r with
  | sender s => exact handle_sender (Sender.subject_onAck s now ack) id
  | receiver r => exact handle_receiver (Receiver.address_onAck r now ack) id

/-- What the application may change about a running endpoint. -/
inductive Setter : (Endpoint → Endpoint) → Prop
  | blockSize (value : UInt8) : Setter (·.setBlockSize value)
  | separation (value : SeparationTime) : Setter (·.setSeparation value)

theorem Setter.handle {change : Endpoint → Endpoint} (h : Setter change)
    (r : Endpoint) (id : EndpointId) :
    (change r).handle id = r.handle id := by
  cases h <;> cases r <;> rfl

end Endpoint

namespace Station
variable {s s' s'' : Station} {h : Handle} {id : EndpointId}

def Genuine (s : Station) (h : Handle) : Prop :=
  h.id < s.fresh ∧ ∀ r, s.endpoint? h.id = some r → r.handle h.id = h

/-- From `s` to `s'` numbers in use stay taken, and the endpoints of those numbers stay what they
were. -/
def Descends (s s' : Station) : Prop :=
  s.fresh ≤ s'.fresh ∧ ∀ id, id < s.fresh → ∀ r', s'.endpoint? id = some r' →
    ∃ r, s.endpoint? id = some r ∧ r'.handle id = r.handle id

theorem Descends.of_eq (he : s'.endpoints = s.endpoints) (hf : s'.fresh = s.fresh) :
    s.Descends s' := by
  refine ⟨Nat.le_of_eq hf.symm, fun id _ r' hr => ⟨r', ?_, rfl⟩⟩
  rwa [endpoint?, he] at hr

theorem Descends.refl (s : Station) : s.Descends s := .of_eq rfl rfl

theorem Descends.trans (h : s.Descends s') (h' : s'.Descends s'') : s.Descends s'' := by
  refine ⟨Nat.le_trans h.1 h'.1, fun id hid r'' hr => ?_⟩
  obtain ⟨r', hr', hh'⟩ := h'.2 id (Nat.lt_of_lt_of_le hid h.1) r'' hr
  obtain ⟨r, hr, hh⟩ := h.2 id hid r' hr'
  exact ⟨r, hr, hh'.trans hh⟩

theorem Genuine.descend (hg : s.Genuine h) (hd : s.Descends s') : s'.Genuine h := by
  refine ⟨Nat.lt_of_lt_of_le hg.1 hd.1, fun r' hr' => ?_⟩
  obtain ⟨r, hr, hh⟩ := hd.2 h.id hg.1 r' hr'
  exact hh.trans (hg.2 r hr)

/-- The store holds no number that is still to be given. -/
def Numbered (s : Station) : Prop := ∀ p ∈ s.endpoints, p.1 < s.fresh

theorem mem_of_endpoint? {r : Endpoint} (h : s.endpoint? id = some r) : (id, r) ∈ s.endpoints := by
  rw [endpoint?] at h
  generalize s.endpoints = l at h
  induction l with
  | nil => simp at h
  | cons p rest ih =>
    obtain ⟨i, r'⟩ := p
    rw [List.lookup_cons] at h
    by_cases hi : id = i
    · rw [hi, beq_self_eq_true] at h
      cases h
      exact hi ▸ List.mem_cons_self
    · rw [beq_eq_false_iff_ne.mpr hi] at h
      exact List.mem_cons_of_mem _ (ih h)

theorem Numbered.lt {r : Endpoint} (hn : s.Numbered) (h : s.endpoint? id = some r) : id < s.fresh :=
  hn _ (mem_of_endpoint? h)

theorem Numbered.modify (hn : s.Numbered) (id : EndpointId) (f : Endpoint → Endpoint) :
    (s.modifyEndpoint id f).Numbered := by
  intro p hp
  obtain ⟨q, hq, rfl⟩ := List.mem_map.mp hp
  exact hn q hq

theorem Descends.modify {f : Endpoint → Endpoint}
    (hf : ∀ r, s.endpoint? id = some r → (f r).handle id = r.handle id) :
    s.Descends (s.modifyEndpoint id f) := by
  refine ⟨Nat.le_refl _, fun i _ r' hr => ?_⟩
  rw [endpoint?_modifyEndpoint] at hr
  obtain ⟨r, hi, rfl⟩ := Option.map_eq_some_iff.mp hr
  refine ⟨r, hi, ?_⟩
  split
  · next he =>
    subst he
    exact hf r hi
  · rfl

theorem lookup_filter_ne (l : List (EndpointId × Endpoint)) (id i : EndpointId) :
    List.lookup i (l.filter (·.1 ≠ id)) = if i = id then none else List.lookup i l := by
  induction l with
  | nil => simp
  | cons p rest ih =>
    obtain ⟨j, r⟩ := p
    by_cases hj : j = id
    · rw [List.filter_cons_of_neg (by simpa using hj), ih, List.lookup_cons]
      by_cases hi : i = id
      · simp [hi]
      · rw [if_neg hi, if_neg hi, beq_eq_false_iff_ne.mpr (hj ▸ hi)]
    · rw [List.filter_cons_of_pos (by simpa using hj), List.lookup_cons, ih, List.lookup_cons]
      by_cases hi : i = j
      · subst hi
        simp [hj]
      · rw [beq_eq_false_iff_ne.mpr hi]

theorem endpoint?_drop (s : Station) (id i : EndpointId) :
    (s.drop id).endpoint? i = if i = id then none else s.endpoint? i := by
  unfold drop
  split
  · next hn =>
    split
    · next hi => rw [hi, hn]
    · rfl
  · exact lookup_filter_ne s.endpoints id i

theorem Numbered.drop (hn : s.Numbered) (id : EndpointId) : (s.drop id).Numbered := by
  unfold Station.drop
  split
  · exact hn
  · intro p hp
    exact hn p (List.mem_filter.mp hp).1

theorem fresh_drop (s : Station) (id : EndpointId) : (s.drop id).fresh = s.fresh := by
  unfold drop
  split <;> rfl

theorem Descends.drop (s : Station) (id : EndpointId) : s.Descends (s.drop id) := by
  refine ⟨Nat.le_of_eq (fresh_drop s id).symm, fun i _ r' hr => ?_⟩
  rw [endpoint?_drop] at hr
  split at hr
  · cases hr
  · exact ⟨r', hr, rfl⟩

theorem endpoint?_adopt (hn : s.Numbered) (r : Endpoint) (budget : Budget) (i : EndpointId) :
    (s.adopt r budget).2.endpoint? i = if i = s.fresh then some r else s.endpoint? i := by
  change List.lookup i (s.endpoints ++ [(s.fresh, r)]) = _
  rw [List.lookup_append, List.lookup_cons]
  by_cases hi : i = s.fresh
  · have hnone : List.lookup i s.endpoints = none := by
      cases hl : List.lookup i s.endpoints with
      | none => rfl
      | some r' => exact absurd (hn.lt hl) (hi ▸ Nat.lt_irrefl _)
    rw [hnone, hi]
    simp
  · rw [beq_eq_false_iff_ne.mpr hi, if_neg hi]
    simp [endpoint?]

theorem Numbered.adopt (hn : s.Numbered) (r : Endpoint) (budget : Budget) :
    (s.adopt r budget).2.Numbered := by
  intro p hp
  change p.1 < s.fresh + 1
  rcases List.mem_append.mp hp with hp | hp
  · exact Nat.lt_succ_of_lt (hn p hp)
  · rw [List.mem_singleton.mp hp]
    exact Nat.lt_succ_self _

theorem Descends.adopt (hn : s.Numbered) (r : Endpoint) (budget : Budget) :
    s.Descends (s.adopt r budget).2 := by
  refine ⟨Nat.le_succ _, fun i hi r' hr => ⟨r', ?_, rfl⟩⟩
  rwa [endpoint?_adopt hn, if_neg (Nat.ne_of_lt hi)] at hr

theorem Genuine.adopt (hn : s.Numbered) (r : Endpoint) (budget : Budget) :
    (s.adopt r budget).2.Genuine (s.adopt r budget).1 := by
  refine ⟨Nat.lt_succ_self _, fun r' hr => ?_⟩
  rw [endpoint?_adopt hn] at hr
  change (if s.fresh = s.fresh then some r else _) = some r' at hr
  rw [if_pos rfl] at hr
  cases hr
  rfl

end Station
end CanTransport
