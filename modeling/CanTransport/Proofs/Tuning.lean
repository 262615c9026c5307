import CanTransport.Proofs.Interludes
import CanTransport.Proofs.Keeping

/-! # What calls from within do to an endpoint

While the gate is held nobody else steps an endpoint, and one that has no entry in the outbox has no
outcome to come. All that a call can do to it then is to set it.
-/
namespace CanTransport
open CanTransport.Action

def Endpoint.Tuned (r r' : Endpoint) : Prop :=
  ∃ blockSize separation, r' = (r.setBlockSize blockSize).setSeparation separation

namespace Endpoint.Tuned
variable {r r' r'' : Endpoint}

theorem refl (r : Endpoint) : r.Tuned r := by
  cases r with
  | sender s => exact ⟨0, .zero, rfl⟩
  | receiver q => exact ⟨q.blockSize, q.separation, rfl⟩

theorem of_setter {change : Endpoint → Endpoint} (h : Setter change) (r : Endpoint) :
    r.Tuned (change r) := by
  cases r with
  | sender s => cases h <;> exact ⟨0, .zero, rfl⟩
  | receiver q =>
    cases h with
    | blockSize value => exact ⟨value, q.separation, rfl⟩
    | separation value => exact ⟨q.blockSize, value, rfl⟩

theorem trans (h : r.Tuned r') (h' : r'.Tuned r'') : r.Tuned r'' := by
  obtain ⟨_, _, rfl⟩ := h
  obtain ⟨blockSize, separation, rfl⟩ := h'
  refine ⟨blockSize, separation, ?_⟩
  cases r <;> rfl

end Endpoint.Tuned

/-- From `s` to `s'` nothing is entered for the endpoint of this number, and it is set at most. -/
structure Station.Tunes (id : EndpointId) (s s' : Station) : Prop where
  fresh : s.fresh ≤ s'.fresh
  entries : ∀ e ∈ s'.outbox, e.writer = some id → ∃ e ∈ s.outbox, e.writer = some id
  stored : ∀ r', s'.endpoint? id = some r' → ∃ r, s.endpoint? id = some r ∧ r.Tuned r'

namespace Scene

/-- Nobody else steps the endpoint of this number, and no outcome is to come for it. -/
structure Silent (id : EndpointId) (c : Scene) : Prop where
  gate : .gate ∈ c.held
  given : id < c.station.fresh
  unwritten : ∀ e ∈ c.station.outbox, e.writer ≠ some id

/-- From `c` to `c'` the endpoint of this number is left alone, but for what setters do. -/
structure Tunes (id : EndpointId) (c c' : Scene) : Prop where
  gate : .gate ∈ c'.held
  station : c.station.Tunes id c'.station

end Scene

namespace Station
variable {id : EndpointId} {s s' s'' : Station}

theorem Tunes.of_sheds (h : s.Sheds s')
    (entries : ∀ e ∈ s'.outbox, e.writer = some id → ∃ e ∈ s.outbox, e.writer = some id) :
    s.Tunes id s' := ⟨h.fresh, entries, fun r' hr => ⟨r', h.stored id r' hr, .refl r'⟩⟩

theorem Tunes.of_eq (hf : s'.fresh = s.fresh) (he : s'.endpoints = s.endpoints)
    (ho : s'.outbox = s.outbox) :
    s.Tunes id s' := .of_sheds (.of_eq hf he) fun e he hw => ⟨e, ho ▸ he, hw⟩

theorem Tunes.refl (s : Station) : s.Tunes id s := .of_eq rfl rfl rfl

theorem Tunes.trans (h : s.Tunes id s') (h' : s'.Tunes id s'') : s.Tunes id s'' where
  fresh := Nat.le_trans h.fresh h'.fresh
  entries e he hw := by
    obtain ⟨e', he', hw'⟩ := h'.entries e he hw
    exact h.entries e' he' hw'
  stored r'' hr := by
    obtain ⟨r', hr', ht'⟩ := h'.stored r'' hr
    obtain ⟨r, hr, ht⟩ := h.stored r' hr'
    exact ⟨r, hr, ht.trans ht'⟩

theorem tunes_modify {i : EndpointId} {f : Endpoint → Endpoint}
    (h : i = id → ∀ r : Endpoint, r.Tuned (f r)) :
    s.Tunes id (s.modifyEndpoint i f) := by
  refine ⟨Nat.le_refl _, fun e he hw => ⟨e, he, hw⟩, fun r' hr => ?_⟩
  rw [endpoint?_modifyEndpoint] at hr
  obtain ⟨r, found, rfl⟩ := Option.map_eq_some_iff.mp hr
  refine ⟨r, found, ?_⟩
  split
  · next hid => exact h hid.symm r
  · exact .refl r

theorem tunes_addSender (hid : id < s.fresh) (address : Address) (message : List UInt8)
    (kind : MessageType) (waitLimit : Option UInt8) :
    s.Tunes id (s.addSender address message kind waitLimit).2 := by
  cases hadd : s.addSender address message kind waitLimit with
  | mk added s' =>
    cases added with
    | error e =>
      obtain rfl := addSender_error hadd
      exact .refl s'
    | ok h =>
      obtain ⟨sender, rest, -, -, rfl⟩ := addSender_ok hadd
      refine ⟨Nat.le_succ _, fun e he hw => ⟨e, he, hw⟩, fun r' hr => ⟨r', ?_, .refl r'⟩⟩
      have hne : (id == s.fresh) = false := beq_eq_false_iff_ne.mpr (Nat.ne_of_lt hid)
      have hlookup : List.lookup id (s.endpoints ++ [(s.fresh, .sender sender)]) = some r' := hr
      simpa [endpoint?, List.lookup_append, List.lookup_cons, hne] using hlookup

end Station

variable {inner : Scene → Scene → Prop} {c c₁ c' : Scene} {id : EndpointId}

open Station in
theorem Query.Usual.tunes {change : Station → Station} {outside : Prop}
    (hq : (Query.access change).Usual [] outside False (· ≠ id)) (s : Station)
    (hid : id < s.fresh) :
    s.Tunes id (change s) := by
  cases hq with
  | look | configure | stamp | enqueue => exact .of_eq rfl rfl rfl
  | adopt => exact tunes_addSender hid _ _ _ _
  | start h | openReception h => exact h.elim
  | begin own | finish own | push own | mark own => cases own
  | drop i =>
    refine ⟨Nat.le_of_eq (s.fresh_drop i).symm, fun e he hw => ⟨e, s.drop_outbox i ▸ he, hw⟩,
      fun r' hr => ⟨r', ?_, .refl r'⟩⟩
    rw [endpoint?_drop] at hr
    split at hr
    · cases hr
    · exact hr
  | dropAll handles =>
    exact .of_sheds (s.sheds_dropAll handles) fun e he hw => ⟨e, s.dropAll_outbox handles ▸ he, hw⟩
  | adjust i setter => exact tunes_modify fun _ => .of_setter setter
  | acknowledge own => exact tunes_modify fun hid => absurd hid own
  | record ack =>
    refine .of_sheds (s.sheds_record ack) fun e he hw => ?_
    have he : e ∈ (s.record ack).2.outbox := he
    rw [record_outbox] at he
    obtain ⟨e', he', hw'⟩ := Outbox.mem_record he
    exact ⟨e', he', hw'.trans hw⟩
  | deliver clock =>
    exact .of_sheds (.of_eq rfl rfl) fun e he hw => ⟨e, (Outbox.next_sublist _ _).subset he, hw⟩
  | forget address clock => exact .of_sheds (.of_eq rfl rfl) fun e he hw => Outbox.mem_release he hw

theorem Scene.Silent.tunes (h : Silent id c) (ht : Tunes id c c') : Silent id c' where
  gate := ht.gate
  given := Nat.lt_of_lt_of_le h.given ht.station.fresh
  unwritten e he hw := by
    obtain ⟨e', he', hw'⟩ := ht.station.entries e he hw
    exact h.unwritten e' he' hw'

theorem spans_tunes :
    Scene.Spans (Scene.Silent id) (Scene.Tunes id) (Query.Usual [] True False (· ≠ id)) where
  keeps := .tunes
  refl hc := ⟨hc.gate, .refl _⟩
  trans h h' := ⟨h'.gate, h.station.trans h'.station⟩
  note hc _ := ⟨hc.gate, .refl _⟩
  lock hc _ := ⟨List.mem_cons_of_mem _ hc.gate, .refl _⟩
  unlock hc hq := ⟨(List.mem_erase_of_ne (Ne.symm hq.mild)).mpr hc.gate, .refl _⟩
  access {c _} hc hq := ⟨hc.gate, hq.tunes c.station hc.given⟩

namespace Station

section Settle
variable (hi : ∀ c c', inner c c' → c.Silent id → c.Tunes id c') (hc : c.Silent id)
include hi hc

theorem deliverNext_tunes {a : Option Bool} (h : deliverNext.Ends inner c a c') :
    c.Tunes id c' := by
  obtain ⟨entry, c₁, h₁, h₂⟩ := ends_bind.mp h
  rcases ends_withLock.mp h₁ with ⟨rfl, rfl⟩ | ⟨-, entry, c₂, hb, rfl, rfl⟩
  · obtain ⟨-, rfl⟩ := h₂
    exact spans_tunes.refl hc
  · obtain ⟨clock, c₃, hnow, hb⟩ := ends_bind.mp hb
    obtain ⟨rfl, rfl⟩ := ends_modifyGet.mp hb
    have hlocked : c.Tunes id (c.lock .outbox) := spans_tunes.lock hc _
    have hlooked := spans_tunes.trans hlocked (spans_tunes.ends (fun _ => hi) (hc.tunes hlocked)
        (usual_now trivial) hnow)
    have hc₃ := hc.tunes hlooked
    have htook := spans_tunes.trans hlooked (spans_tunes.access hc₃ (.deliver clock))
    have htaken := spans_tunes.trans htook
        (spans_tunes.unlock (hc.tunes htook) (@Query.Usual.release _ _ _ _ .outbox nofun))
    cases he : (c₃.station.nextDelivery clock).1 with
    | none =>
      rw [he] at h₂
      obtain ⟨-, rfl⟩ := h₂
      exact htaken
    | some e =>
      rw [he] at h₂
      obtain ⟨delivered, c₄, hd, -, rfl⟩ := ends_bind.mp h₂
      have hwriter : ∀ i, e.writer = some i → i ≠ id := by
        rintro i hw rfl
        exact hc₃.unwritten e (Outbox.next_eq_some he).1 hw
      exact spans_tunes.trans htaken (spans_tunes.ends (fun _ => hi) (hc.tunes htaken)
        (deliverEntry_usual trivial hwriter) hd)

theorem deliverUpTo_tunes {fuel a : Nat} (h : (deliverUpTo fuel).Ends inner c a c') :
    c.Tunes id c' := by
  induction fuel generalizing c a with
  | zero =>
    obtain ⟨-, rfl⟩ := h
    exact spans_tunes.refl hc
  | succ fuel ih =>
    obtain ⟨delivered, c₁, h₁, h₂⟩ := ends_bind.mp h
    have hnext := deliverNext_tunes hi hc h₁
    cases delivered with
    | none =>
      obtain ⟨-, rfl⟩ := h₂
      exact hnext
    | some delivered =>
      obtain ⟨rest, c₂, hrest, -, rfl⟩ := ends_bind.mp h₂
      exact spans_tunes.trans hnext (ih (hc.tunes hnext) hrest)

theorem settle_tunes {a : Nat} (h : settle.Ends inner c a c') : c.Tunes id c' := by
  obtain ⟨_, c₁, hd, hr⟩ := ends_bind.mp h
  have hdrained :=
    spans_tunes.ends (fun _ => hi) hc (asks_bind usual_get fun _ => drainUpTo_usual trivial _) hd
  obtain ⟨s, c₂, hs, hdeliver⟩ := ends_bind.mp hr
  obtain ⟨rfl, rfl⟩ := ends_get.mp hs
  exact spans_tunes.trans hdrained (deliverUpTo_tunes hi (hc.tunes hdrained) hdeliver)

end Settle

/-- However deep calls are nested, an endpoint for which no outcome is to come is set at most. -/
theorem episode_tunes (depth : Nat) : ∀ c c', Episode depth c c' → c.Silent id → c.Tunes id c' :=
  episode_spans spans_tunes Scene.Silent.gate (fun _ hi _ _ _ hc h => settle_tunes hi hc h) depth

end Station
end CanTransport
