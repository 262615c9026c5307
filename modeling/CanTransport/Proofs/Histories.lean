import CanTransport.Proofs.Execution
import CanTransport.Proofs.Handovers

/-! # Runs are dealings

All that comes of a station is a matter of dealings, and so is what comes of endpoints that are
made, stepped and dropped by hand and share nothing but an outbox.
-/
namespace CanTransport
open Station

/-- What endpoints may come to that share an outbox and are made, stepped and dropped by hand. Calls
may be made from within; they proceed by transitions. -/
inductive HandDriven : Scene → Prop
  | start {s : Station} (blank : s.IsBlank) : HandDriven { station := s }
  | make {c : Scene} {r : Endpoint} (before : HandDriven c) (rest : Budget) (new : r.IsNew) :
      HandDriven (c.access fun s => (s.adopt r rest).2)
  | dismiss {c : Scene} (before : HandDriven c) (id : EndpointId) :
      HandDriven (c.access (·.drop id))
  | spend {c : Scene} (before : HandDriven c) (budget : Budget) :
      HandDriven (c.access (·.setBudget budget))
  | step {c c' : Scene} {inner : Scene → Scene → Prop} {id : EndpointId} {frame : Option Frame}
      {outcome : StepOutcome} (before : HandDriven c) (sound : Sound inner)
      (ends : (stepEndpoint id frame).Ends inner c outcome c') : HandDriven c'
  | poll {c c' : Scene} {inner : Scene → Scene → Prop} {taken : Bool} (before : HandDriven c)
      (sound : Sound inner) (ends : pollOutcome.Ends inner c taken c') : HandDriven c'
  | deliver {c c' : Scene} {inner : Scene → Scene → Prop} {count : Nat} (before : HandDriven c)
      (sound : Sound inner) (ends : deliver.Ends inner c count c') : HandDriven c'
  | forget {c c' : Scene} {inner : Scene → Scene → Prop} {address : Address}
      {a : Except LockTimeout Nat} (before : HandDriven c) (sound : Sound inner)
      (ends : (forget address).Ends inner c a c') : HandDriven c'
  | adjust {c c' : Scene} {inner : Scene → Scene → Prop} {change : Endpoint → Endpoint}
      {handles : List Handle} {a : Except LockTimeout Unit} (before : HandDriven c)
      (setter : Endpoint.Setter change) (ends : (changeEach change handles).Ends inner c a c') :
      HandDriven c'

variable {c c' : Scene} {inner : Scene → Scene → Prop} {passed : List Stage}

namespace Dealings

theorem fits (h : Dealings passed ⟨c, {}⟩) : Fits {} c :=
  ⟨h.regular.orderly, fun _ hid => absurd hid List.not_mem_nil, .inr ⟨rfl, rfl⟩⟩

theorem proceed (h : Dealings passed ⟨c, {}⟩) (p : Proceeds {} c c') :
    ∃ passed, Dealings passed ⟨c', {}⟩ :=
  (h.path p.path).imp' _ fun _ h => h

theorem step {id : EndpointId} {frame : Option Frame} {outcome : StepOutcome}
    (h : Dealings passed ⟨c, {}⟩) (hi : Sound inner)
    (ends : (stepEndpoint id frame).Ends inner c outcome c') : ∃ passed,
    Dealings passed ⟨c', {}⟩ := by
  rcases stepEndpoint_proceeds hi h.fits ends with ⟨p, -⟩ |
    ⟨length, -, idle, c₁, r, next, frame, now, budget, p, found, rests, rfl⟩
  · exact h.proceed p
  · obtain ⟨more, hmore⟩ := h.path ((Path.single (.locks _)).trans p.path)
    have hstepped := hmore.next (.rest idle found rests)
    exact ⟨_, hstepped.next (.call (.locks _))⟩

end Dealings

theorem HandDriven.dealings (h : HandDriven c) : ∃ passed, Dealings passed ⟨c, {}⟩ := by
  induction h with
  | start blank => exact ⟨[], .start blank⟩
  | make _ rest new ih =>
    obtain ⟨passed, ih⟩ := ih
    exact ⟨_, ih.next (.make rest new)⟩
  | dismiss _ id ih =>
    obtain ⟨passed, ih⟩ := ih
    exact ⟨_, ih.next (.dismiss id)⟩
  | spend _ budget ih =>
    obtain ⟨passed, ih⟩ := ih
    exact ⟨_, ih.next (.spend budget)⟩
  | step _ sound ends ih =>
    obtain ⟨passed, ih⟩ := ih
    exact ih.step sound ends
  | poll _ sound ends ih =>
    obtain ⟨passed, ih⟩ := ih
    exact ih.proceed (pollOutcome_proceeds sound ih.fits ends)
  | deliver _ sound ends ih =>
    obtain ⟨passed, ih⟩ := ih
    obtain ⟨s, c₁, hs, ends⟩ := Action.ends_bind.mp ends
    obtain ⟨rfl, rfl⟩ := Action.ends_get.mp hs
    exact ih.proceed (deliverUpTo_proceeds sound ih.fits ends)
  | forget _ sound ends ih =>
    obtain ⟨passed, ih⟩ := ih
    exact ih.proceed (forget_proceeds sound ih.fits ends)
  | adjust _ setter ends ih =>
    obtain ⟨passed, ih⟩ := ih
    exact ih.proceed (changeEach_proceeds setter ih.fits ends)

namespace Station

theorem isBlank_of_config {config : Config} {s : Station} (h : ofConfig config = .ok s) :
    s.IsBlank := by
  obtain ⟨-, rfl⟩ := ofConfig_eq h
  exact ⟨rfl, rfl, rfl, rfl, rfl⟩

theorem Reaches.dealings {config : Config} (h : Reaches config c) :
    ∃ passed, Dealings passed ⟨c, {}⟩ := by
  obtain ⟨s, depth, hs, he⟩ := h
  have hstart := Dealings.start (isBlank_of_config hs)
  exact hstart.proceed (episode_sound depth {} _ c hstart.fits he)

end Station
end CanTransport
