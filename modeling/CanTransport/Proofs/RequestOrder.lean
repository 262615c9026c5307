import CanTransport.Proofs.Execution
import CanTransport.Proofs.Ledger

/-! # Requests are started and confirmed in order, each once

Those accepted on an identifier are those confirmed on it, then the one that runs, then those that
wait; while a tick reports what is over, the conversations still to be reported stand in between.
-/
namespace CanTransport
open Station

theorem ledger_of_config {config : Config} {s : Station} (h : ofConfig config = .ok s) :
    Ledger ⟨{ station := s }, {}⟩ := by
  obtain ⟨-, hs⟩ := ofConfig_eq h
  have hp : s.pending = [] := by rw [hs]
  have ha : s.active = [] := by rw [hs]
  have hc : s.custody = [] := by
    rw [Station.custody, hp, ha]
    rfl
  have hall : ∀ {P : Handle → Prop}, ∀ h ∈ s.custody, P h := by
    intro P h hh
    rw [hc] at hh
    cases hh
  constructor
  case order =>
    intro n
    change [] = [] ++ [] ++ s.ordersOn n
    rw [ordersOn, sendingOn, waitingOn, ha, hp]
    rfl
  case admitted_nodup => exact .nil
  case admitted_lt =>
    intro p hp
    exact absurd hp List.not_mem_nil
  case confirmed_nodup => exact .nil
  case confirmed_lt =>
    intro p hp
    exact absurd hp List.not_mem_nil
  case custody =>
    refine ⟨?_, hall, fun h hh => absurd hh List.not_mem_nil, hall⟩
    change (s.custody.map _).Nodup
    rw [hc]
    exact .nil
  case senders =>
    intro h hh
    rw [hp] at hh
    cases hh
  case keyed =>
    intro p hmem
    rw [ha] at hmem
    cases hmem

/-- On every identifier the requests accepted are, in this order, those confirmed, the one that runs
and those that wait. No request is accepted or confirmed twice, what waits are senders, and a
conversation runs under the identifier of its endpoint. -/
theorem requests_in_order {config : Config} {c : Scene} (h : Reaches config c) :
    (∀ n, c.admittedOn n = c.confirmedOn n ++ c.station.sendingOn n ++ c.station.waitingOn n) ∧
      (c.admitted.map (·.1)).Nodup ∧ (c.confirmed.map (·.1)).Nodup ∧
      (∀ h ∈ c.station.pending, h.role = .sender) ∧
      ∀ p ∈ c.station.active, p.2.address = p.1 ∧ ∃ r, c.station.endpoint? p.2.id = some r ∧
        r.address = p.1 := by
  have hl : Ledger ⟨c, {}⟩ := h.invariant (fun s hs => ledger_of_config hs) fun x y t ho hx =>
      hx.step t ho
  refine ⟨fun n => ?_, hl.admitted_nodup, hl.confirmed_nodup, hl.senders, fun p hp =>
    ⟨hl.keyed p hp, ?_⟩⟩
  · apply (hl.order n).trans
    rw [ordersOn, ← List.append_assoc]
    exact congrArg (· ++ _) (congrArg (· ++ _) (List.append_nil _))
  · obtain ⟨r, hr, hh⟩ := hl.custody.live p.2 (List.mem_append_left _ (List.mem_map_of_mem hp))
    exact ⟨r, hr, by rw [← hl.keyed p hp, ← hh]; rfl⟩

def threeRequests : Scene :=
  [Call.request 0x10 .physical [1] .diagnostics, .request 0x10 .physical [2] .diagnostics,
    .request 0x10 .physical [3] .diagnostics, .pacedTick, .pacedTick, .pacedTick].foldl
    (fun c call => call.perform c)
    { station := { settings := { source := 0xF1 }, budget := .ofBytes (64 * 1024) } }

theorem reaches_threeRequests : Reaches { source := 0xF1 } threeRequests := reaches_perform rfl _

theorem requests_in_order_three :
    threeRequests.admittedOn (.physical 0x10 0xF1) = [0] ++ [1] ++ [2] :=
  (requests_in_order reaches_threeRequests).1 (.physical 0x10 0xF1)

end CanTransport
