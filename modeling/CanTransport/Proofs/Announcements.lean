import CanTransport.Proofs.Keeping
import CanTransport.Proofs.Receiving

/-! # Announcements

The step that takes a first frame announces the length of the message, and no other step announces
anything. At all times a receiver stands as has been announced under its number.
-/
namespace CanTransport

def Event.announcement? (id : EndpointId) : Event → Option Nat
  | .told source (.firstFrame _ length _) => if source = id then some length else none
  | _ => none

def announcedBy (id : EndpointId) (events : List Event) : Option Nat :=
  events.findSome? (Event.announcement? id)

theorem announcedBy_append (id : EndpointId) (events : List Event) (e : Event) :
    announcedBy id (events ++ [e]) = (announcedBy id events).or (e.announcement? id) := by
  simp [announcedBy]

theorem announcedBy_append_of_none {id : EndpointId} (events : List Event) {e : Event}
    (h : e.announcement? id = none) :
    announcedBy id (events ++ [e]) = announcedBy id events := by
  rw [announcedBy_append, h, Option.or_none]

theorem Receiver.Story.preset {r : Receiver} {announced : Option Nat} (h : r.Story announced)
    (blockSize : UInt8) (separation : SeparationTime) :
    Receiver.Story { r with blockSize, separation } announced := by
  cases h with
  | fresh phase running => exact .fresh phase running
  | receiving phase running long => exact .receiving phase running long
  | short phase latched whole short => exact .short phase latched whole short
  | long phase latched whole long => exact .long phase latched whole long
  | failed phase latched => exact .failed phase latched

namespace Endpoint
variable {r r' : Endpoint} {announced : Option Nat}

/-- A receiver stands as has been announced. -/
def Story : Endpoint → Option Nat → Prop
  | sender _, _ => True
  | receiver r, announced => r.Story announced

theorem Story.setter {change : Endpoint → Endpoint} (h : r.Story announced) (hs : Setter change) :
    (change r).Story announced := by
  cases r with
  | sender s => cases hs <;> trivial
  | receiver q =>
    have h : q.Story announced := h
    cases hs with
    | blockSize value => exact h.preset value q.separation
    | separation value => exact h.preset q.blockSize value

theorem Story.onAck (h : r.Story announced) (now : Micros) (ack : Ack) :
    (r.onAck now ack).Story announced := by
  cases r with
  | sender s => trivial
  | receiver q => exact Receiver.onAck_story h ack

theorem Story.step {now after : Micros} {frame : Option Frame} {budget : Budget} {accepted : Bool}
    {outcome : StepOutcome} (hs : r.Story announced)
    (h : (r.step now frame budget).1.finish accepted after = (r', outcome)) :
    (∃ length, announced = none ∧ outcome = .firstFrame length ∧ r'.Story (some length)) ∨
      (∀ length, outcome ≠ .firstFrame length) ∧ r'.Story announced := by
  cases r with
  | sender s =>
    obtain ⟨rfl, rfl⟩ := Prod.mk.inj ((Move.finish_map_eq _ _ _ _).symm.trans h)
    exact .inr ⟨s.step_silent now after frame accepted, trivial⟩
  | receiver q =>
    obtain ⟨rfl, rfl⟩ := Prod.mk.inj ((Move.finish_map_eq _ _ _ _).symm.trans h)
    exact Receiver.step_story hs rfl

theorem receiver_of_announces {now : Micros} {frame : Option Frame} {budget rest : Budget}
    {next : Endpoint} {length : Nat}
    (h : r.step now frame budget = (.rest next (.firstFrame length), rest)) :
    r.role = .receiver := by
  cases r with
  | receiver q => rfl
  | sender q =>
    have hfinish : ((Endpoint.sender q).step now frame budget).1.finish true now =
        (next, .firstFrame length) := by
      rw [h]
      rfl
    exact absurd (Prod.mk.inj ((Move.finish_map_eq _ _ _ _).symm.trans hfinish)).2
      (q.step_silent now now frame true length)

end Endpoint

theorem announcement?_completion (h : Handle) (seen : Option Endpoint) (id : EndpointId) :
    Event.announcement? id (.told h.id (Station.completion h seen)) = none := by
  cases seen with
  | none => cases hr : h.role <;> simp [Station.completion, Event.announcement?, hr]
  | some r => cases r <;> rfl

/-- Receivers stand as has been announced, and so did those whose steps have been begun. -/
structure Storied (x : Stage) : Prop where
  stored : ∀ id r, x.scene.station.endpoint? id = some r → r.Story (announcedBy id x.scene.events)
  begun : ∀ b, .step b ∈ x.hand.tasks → b.origin.Story (announcedBy b.id x.scene.events)
  fresh : ∀ id, x.scene.station.fresh ≤ id → announcedBy id x.scene.events = none

namespace Storied
open Station Scene
variable {x y : Stage} {c : Scene} {g g' : Hand} {id : EndpointId}

theorem congr (hx : Storied x) (hs : x.scene.station.Sheds y.scene.station)
    (hb : x.hand.Continues y.hand)
    (ha : ∀ id, announcedBy id y.scene.events = announcedBy id x.scene.events) : Storied y := by
  refine ⟨fun id r hr => ?_, fun b hmem => ?_, fun id hid =>
    (ha id).trans (hx.fresh id (Nat.le_trans hs.fresh hid))⟩
  · rw [ha]
    exact hx.stored id r (hs.stored id r hr)
  · obtain ⟨b', hb', hid, ho⟩ := hb b hmem
    rw [ha, ← hid, ← ho]
    exact hx.begun b' hb'

theorem modify {f : Endpoint → Endpoint} (hx : Storied ⟨c, g⟩)
    (hf : ∀ r, c.station.endpoint? id = some r → (f r).Story (announcedBy id c.events))
    (hb : ∀ b, .step b ∈ g'.tasks → .step b ∈ g.tasks) :
    Storied ⟨c.access (·.modifyEndpoint id f), g'⟩ := by
  refine ⟨fun i r hr => ?_, fun b hmem => hx.begun b (hb b hmem), hx.fresh⟩
  rw [access_station, endpoint?_modifyEndpoint] at hr
  obtain ⟨r₀, hr₀, rfl⟩ := Option.map_eq_some_iff.mp hr
  split
  · next hi =>
    subst hi
    exact hf r₀ hr₀
  · exact hx.stored i r₀ hr₀

theorem adopt {r : Endpoint} (hx : Storied x) (hr : r.Story none)
    (hs : ∀ i, y.scene.station.endpoint? i = if i = x.scene.station.fresh then some r else
      x.scene.station.endpoint? i)
    (hf : y.scene.station.fresh = x.scene.station.fresh + 1) (hh : y.hand = x.hand)
    (ha : ∀ id, announcedBy id y.scene.events = announcedBy id x.scene.events) : Storied y := by
  refine ⟨fun i r' hr' => ?_, fun b hmem => ?_, fun i hi => (ha i).trans (hx.fresh i ?_)⟩
  · rw [hs] at hr'
    rw [ha]
    split at hr'
    · next hi =>
      cases hr'
      rw [hx.fresh i (Nat.le_of_eq hi.symm)]
      exact hr
    · exact hx.stored i r' hr'
  · rw [ha]
    exact hx.begun b (hh ▸ hmem)
  · rw [hf] at hi
    exact Nat.le_of_succ_le hi

/-- The number under which a message is announced is the only one about which something new is
known. -/
theorem announce {r next : Endpoint} {length : Nat} {budget : Budget} {frame : Option Frame}
    {now : Micros} (hx : Storied ⟨c, g⟩) (ho : Orderly ⟨c, g⟩) (idle : id ∉ g.busy)
    (found : c.station.endpoint? id = some r)
    (rests : r.step now frame c.station.budget = (.rest next (.firstFrame length), budget)) :
    announcedBy id c.events = none ∧
    Storied ⟨(c.access fun s => (s.setBudget budget).modifyEndpoint id fun _ => next).note
      (.told id (.firstFrame r.address length r.kind)), g⟩ := by
  have hfinish : (r.step now frame c.station.budget).1.finish true now =
      (next, .firstFrame length) := by
    rw [rests]
    rfl
  obtain ⟨l, hnone, hl, hnext⟩ := ((hx.stored id r found).step hfinish).resolve_right fun h =>
      h.1 length rfl
  obtain rfl := StepOutcome.firstFrame.inj hl
  have hothers : ∀ i, i ≠ id →
      announcedBy i (c.events ++ [.told id (.firstFrame r.address length r.kind)]) =
      announcedBy i c.events :=
        fun i hi => announcedBy_append_of_none c.events (if_neg (Ne.symm hi))
  refine ⟨hnone, fun i r' hr' => ?_, fun b hmem => ?_, fun i hi => ?_⟩
  · change r'.Story (announcedBy i (c.events ++ [.told id (.firstFrame r.address length r.kind)]))
    rw [note_station, access_station, endpoint?_modifyEndpoint] at hr'
    obtain ⟨r₀, hr₀, rfl⟩ := Option.map_eq_some_iff.mp hr'
    split
    · next hi =>
      subst hi
      rw [announcedBy_append, show announcedBy i c.events = none from hnone, Event.announcement?,
        if_pos rfl, Option.none_or]
      exact hnext
    · next hi =>
      rw [hothers i hi]
      exact hx.stored i r₀ hr₀
  · have hid : b.id ≠ id := fun hid => idle (hid ▸ List.mem_map_of_mem hmem)
    exact (hothers b.id hid).symm ▸ hx.begun b hmem
  · have hlt : id < c.station.fresh := ho.numbered.lt found
    exact (hothers i fun hid => Nat.not_lt.mpr hi (hid ▸ hlt)).trans (hx.fresh i hi)

theorem step (t : Transition x y) (ho : Orderly x) (hx : Storied x) : Storied y := by
  cases t with
  | locks | configure | discard | mark | forget =>
    exact hx.congr (.of_eq rfl rfl) (.refl _) fun _ => rfl
  | @tell c g h untold seen =>
    exact hx.congr (.of_eq rfl rfl) (.refl _) fun id =>
      announcedBy_append_of_none c.events (announcement?_completion h seen id)
  | poll => exact hx.congr (sheds_record _ _) (.refl _) fun id => announcedBy_append_of_none _ rfl
  | start => exact hx.congr (sheds_startPending _) (.refl _) fun _ => rfl
  | retire => exact hx.congr (sheds_takeFinished _) (.refl _) fun _ => rfl
  | drop => exact hx.congr (sheds_dropAll _ _) (.refl _) fun _ => rfl
  | turnDown => exact hx.congr (sheds_turnDown ho.numbered _ _) (.refl _) fun _ => rfl
  | collect => exact hx.congr (.of_eq rfl rfl) (Hand.continues_collect _ _ _) fun _ => rfl
  | adjust idle setter =>
    exact hx.modify (fun r hr => (hx.stored _ r hr).setter setter) fun b hb => hb
  | acknowledge now under =>
    exact hx.modify (fun r hr => (hx.stored _ r hr).onAck now _) fun b hb =>
      under ▸ List.mem_cons_of_mem _ hb
  | @request c g sender rest address message kind created =>
    exact hx.adopt (r := .sender sender) trivial (endpoint?_adopt ho.numbered _ rest) rfl rfl
      fun id => announcedBy_append_of_none c.events rfl
  | @openReception c g receiver rest address blockSize separation quiet created =>
    obtain ⟨rfl, -⟩ := Receiver.create_ok created
    exact hx.adopt (r := .receiver _) (Receiver.story_initial _ _ _)
      (endpoint?_adopt ho.numbered _ rest) rfl rfl fun _ => rfl
  | @rest c g id r next frame now outcome budget idle found rests silent =>
    have hfinish : (r.step now frame c.station.budget).1.finish true now = (next, outcome) := by
      rw [rests]
      rfl
    have hnext :=
      (((hx.stored id r found).step hfinish).resolve_left fun ⟨l, _, hl, _⟩ => silent l hl).2
    have hpaid : Storied ⟨c.access (·.setBudget budget), g⟩ := ⟨hx.stored, hx.begun, hx.fresh⟩
    exact ⟨(hpaid.modify (f := fun _ => next) (fun _ _ => hnext) fun b hb => hb).stored, hx.begun,
      hx.fresh⟩
  | announce idle found rests => exact (hx.announce ho idle found rests).2
  | begin b idle found =>
    refine ⟨hx.stored, fun b' hb => ?_, hx.fresh⟩
    rcases List.mem_cons.mp hb with hb | hb
    · cases hb
      exact hx.stored _ _ found
    · exact hx.begun b' hb
  | @accept c g b tasks address under offered =>
    exact hx.congr (.of_eq rfl rfl) (Hand.continues_accept under) fun id =>
      announcedBy_append_of_none c.events rfl
  | @finish c g b tasks after under =>
    have hnext : (b.next b.accepted after).1.Story (announcedBy b.id c.events) := by
      have horigin := hx.begun b (under ▸ List.mem_cons_self)
      have hfinish : (b.origin.step b.clock b.input b.budget).1.finish b.accepted after =
          b.next b.accepted after := by
        rw [b.writes]
        rfl
      refine ((horigin.step hfinish).resolve_left ?_).2
      rintro ⟨l, -, hl, -⟩
      exact Endpoint.write_silent b.writes b.accepted after l hl
    exact hx.modify (fun _ _ => hnext) fun b' hb => under ▸ List.mem_cons_of_mem _ hb

end Storied

theorem storied_of_config {config : Config} {s : Station} (h : Station.ofConfig config = .ok s) :
    Storied ⟨{ station := s }, {}⟩ := by
  obtain ⟨-, rfl⟩ := Station.ofConfig_eq h
  exact ⟨fun id r hr => absurd (Station.mem_of_endpoint? hr) List.not_mem_nil, fun b hb =>
    absurd hb List.not_mem_nil, fun _ _ => rfl⟩

end CanTransport
