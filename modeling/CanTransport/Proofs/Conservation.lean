import Mathlib.Algebra.GroupWithZero.Nat
import Mathlib.Data.List.Dedup
import CanTransport.Proofs.Finishing
import CanTransport.Proofs.Ownership
import CanTransport.Proofs.RequestOrder
import CanTransport.Proofs.Solvency

/-! # Memory is conserved -/
namespace CanTransport
open Station

/-- The station is solvent, and a step in progress leaves its endpoint with what it held at the
beginning. -/
structure Funded (whole : Int) (x : Stage) : Prop where
  solvent : x.scene.station.Solvent whole
  begun : ∀ b, .step b ∈ x.hand.tasks → b.origin.Modest ∧
    ∀ r, x.scene.station.endpoint? b.id = some r → r.footprint = b.origin.footprint

variable {x y : Stage} {c : Scene} {g : Hand} {whole : Int}

theorem Funded.keep (hx : Funded whole x) (ho : Orderly x) (hs : y.scene.station.Solvent whole)
    (he : ∀ id r', id < x.scene.station.fresh → y.scene.station.endpoint? id = some r' →
      ∃ r, x.scene.station.endpoint? id = some r ∧ r'.footprint = r.footprint)
    (hb : x.hand.Continues y.hand) : Funded whole y := by
  refine ⟨hs, fun b hmem => ?_⟩
  obtain ⟨b', hmem, hid, horigin⟩ := hb b hmem
  obtain ⟨hm, hf⟩ := hx.begun b' hmem
  rw [← horigin]
  refine ⟨hm, fun r' hr' => ?_⟩
  rw [← hid] at hr'
  obtain ⟨r, hr, hfoot⟩ := he b'.id r' (ho.begun b' hmem).1 hr'
  exact hfoot.trans (hf r hr)

theorem Funded.congr (hx : Funded whole x) (ho : Orderly x)
    (he : y.scene.station.endpoints = x.scene.station.endpoints)
    (hb : y.scene.station.budget = x.scene.station.budget)
    (ht : x.hand.Continues y.hand) : Funded whole y := by
  refine hx.keep ho (hx.solvent.congr he hb) (fun id r hid hr => ⟨r, ?_, rfl⟩) ht
  rwa [endpoint?, he] at hr

theorem Funded.modify {f : Endpoint → Endpoint} {id : EndpointId} {g' : Hand}
    (hx : Funded whole ⟨c, g⟩) (ho : Orderly ⟨c, g⟩)
    (hf : ∀ r, c.station.endpoint? id = some r → (f r).footprint = r.footprint ∧ (f r).Modest)
    (hb : ∀ b, .step b ∈ g'.tasks → .step b ∈ g.tasks) :
    Funded whole ⟨c.access (·.modifyEndpoint id f), g'⟩ := by
  refine hx.keep ho (hx.solvent.modify hf) (fun i r' _ hr' => ?_) (.of_subset hb)
  change (c.station.modifyEndpoint id f).endpoint? i = some r' at hr'
  rw [endpoint?_modifyEndpoint] at hr'
  obtain ⟨r, hr, rfl⟩ := Option.map_eq_some_iff.mp hr'
  refine ⟨r, hr, ?_⟩
  split
  · next hi =>
    subst hi
    exact (hf r hr).1
  · rfl

theorem Funded.adopt {r : Endpoint} {rest : Budget} (hx : Funded whole x) (ho : Orderly x)
    (hr : x.scene.station.budget.reserve r.footprint = .ok rest) (hm : r.Modest)
    (he : y.scene.station.endpoints = (x.scene.station.adopt r rest).2.endpoints)
    (hb : y.scene.station.budget = rest) (ht : y.hand = x.hand) : Funded whole y := by
  refine hx.keep ho ((hx.solvent.adopt ho.numbered hr hm).congr he hb)
    (fun id r' hid hr' => ⟨r', ?_, rfl⟩) (ht ▸ .refl x.hand)
  rw [endpoint?, he] at hr'
  have hadopt := endpoint?_adopt ho.numbered r rest id
  rw [if_neg (Nat.ne_of_lt hid)] at hadopt
  exact hadopt.symm.trans hr'

theorem Sender.reserve_create {address : Address} {message : List UInt8} {kind : MessageType}
    {waitLimit : Option UInt8} {budget rest : Budget} {sender : Sender}
    (h : create address message kind waitLimit budget = .ok (sender, rest)) :
    budget.reserve (Endpoint.sender sender).footprint = .ok rest := by
  rw [create] at h
  split at h
  · cases h
  · split at h
    · cases h
    · split at h
      · cases h
      · next hreserve =>
        cases h
        exact hreserve

theorem Receiver.reserve_create {address : Address} {blockSize : UInt8}
    {separation : SeparationTime} {budget rest : Budget} {receiver : Receiver}
    (h : create address blockSize separation budget = .ok (receiver, rest)) :
    budget.reserve (Endpoint.receiver receiver).footprint = .ok rest ∧ receiver.Modest := by
  unfold create at h
  split at h
  · cases h
  · next hreserve =>
    cases h
    exact ⟨hreserve, fun _ => rfl⟩

theorem Funded.rest {id : EndpointId} {r next : Endpoint} {frame : Option Frame} {now : Micros}
    {outcome : StepOutcome} {budget : Budget} (hx : Funded whole ⟨c, g⟩) (idle : id ∉ g.busy)
    (found : c.station.endpoint? id = some r)
    (rests : r.step now frame c.station.budget = (.rest next outcome, budget)) :
    Funded whole ⟨c.access fun s => (s.setBudget budget).modifyEndpoint id fun _ => next, g⟩ := by
  obtain ⟨hp, hc, hm⟩ := Endpoint.rest_pays (hx.solvent.modest id r found) rests
  have hs := hx.solvent.pay (f := fun _ => next) found hp (hc hx.solvent.covered) hm
  refine ⟨hs, fun b hb => ?_⟩
  obtain ⟨hmodest, hfoot⟩ := hx.begun b hb
  refine ⟨hmodest, fun r' hr' => hfoot r' ?_⟩
  have hne : b.id ≠ id := fun he => idle (he ▸ List.mem_map.mpr ⟨_, hb, rfl⟩)
  change (c.station.modifyEndpoint id fun _ => next).endpoint? b.id = some r' at hr'
  rw [endpoint?_modifyEndpoint] at hr'
  simpa [hne] using hr'

theorem Funded.step (t : Transition x y) (ho : Orderly x) (ht : whole ≤ Budget.top)
    (hx : Funded whole x) :
    Funded whole y := by
  cases t with
  | locks | configure | discard | mark | forget | tell => exact hx.congr ho rfl rfl (.refl _)
  | poll => exact hx.congr ho (by simp [record_outbox]) (by simp [record_outbox]) (.refl _)
  | start | retire => exact hx.congr ho (by simp) (by simp) (.refl _)
  | collect => exact hx.congr ho rfl rfl (Hand.continues_collect _ _ _)
  | adjust idle setter =>
    exact hx.modify ho (fun r hr => ⟨setter.footprint r, setter.modest (hx.solvent.modest _ r hr)⟩)
      fun b hb => hb
  | acknowledge now under =>
    refine hx.modify ho (fun r hr => ?_) fun b hb => under ▸ List.mem_cons_of_mem _ hb
    exact ⟨Bench.NodeRun.footprint_onAck r now _, Endpoint.modest_onAck (hx.solvent.modest _ r hr)
      now _⟩
  | @request c g sender rest address message kind created =>
    exact hx.adopt (r := .sender sender) ho (Sender.reserve_create created) trivial rfl rfl rfl
  | @turnDown c g sender rest address message kind created =>
    have hnew : Funded whole ⟨c.access fun s => (s.adopt (.sender sender) rest).2, g⟩ :=
      hx.adopt (r := .sender sender) ho (Sender.reserve_create created) trivial rfl rfl rfl
    refine hx.keep ho (hnew.solvent.drop ht _) (fun id r' hid hr' => ⟨r', ?_, rfl⟩) (.refl _)
    rw [access_station, access_station, endpoint?_drop, if_neg (Nat.ne_of_lt hid),
      endpoint?_adopt ho.numbered, if_neg (Nat.ne_of_lt hid)] at hr'
    exact hr'
  | @openReception c g receiver rest address blockSize separation quiet created =>
    obtain ⟨hreserve, hm⟩ := Receiver.reserve_create created
    exact hx.adopt (r := .receiver receiver) ho hreserve hm rfl rfl rfl
  | rest idle found rests => exact hx.rest idle found rests
  | announce idle found rests =>
    exact ⟨(hx.rest idle found rests).solvent, (hx.rest idle found rests).begun⟩
  | @begin c g b idle found budget fresh =>
    have hm := hx.solvent.modest b.id b.origin found
    obtain ⟨hspare, -⟩ := Endpoint.write_spares hm b.writes
    have hbudget : (b.origin.step b.clock b.input b.budget).2 = c.station.budget :=
      hspare.trans budget
    rw [hbudget]
    refine ⟨hx.solvent.congr rfl rfl, fun b' hb => ?_⟩
    rcases List.mem_cons.mp hb with hb | hb
    · cases hb
      refine ⟨hm, fun r hr => ?_⟩
      rw [Option.some.inj (hr.symm.trans found)]
    · exact hx.begun b' hb
  | accept address under offered => exact hx.congr ho rfl rfl (Hand.continues_accept under)
  | @finish c g b tasks after under =>
    obtain ⟨hm, hfoot⟩ := hx.begun b (under ▸ List.mem_cons_self)
    obtain ⟨-, hnext⟩ := Endpoint.write_spares hm b.writes
    refine hx.modify ho (fun r hr => ?_) fun b' hb => under ▸ List.mem_cons_of_mem _ hb
    exact ⟨(hnext b.accepted after).1.trans (hfoot r hr).symm, (hnext b.accepted after).2⟩
  | @drop c g untold =>
    refine hx.keep ho (hx.solvent.dropAll ht g.told) (fun id r' _ hr' => ⟨r', ?_, rfl⟩) (.refl _)
    exact endpoint?_of_dropAll hr'

namespace Station

end Station

theorem owned_of_config {config : Config} {s : Station} (h : ofConfig config = .ok s) :
    Owned ⟨{ station := s }, {}⟩ := by
  obtain ⟨-, rfl⟩ := ofConfig_eq h
  exact ⟨.nil, fun id r hr => absurd (mem_of_endpoint? hr) List.not_mem_nil⟩

end CanTransport
