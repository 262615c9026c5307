import CanTransport.Proofs.Administration
import CanTransport.Proofs.Scheduling

/-! # Every call is a path of transitions

However the surroundings answer, and whatever calls are made from within it, a call leads from stage
to stage by transitions only, lets go of all locks that it has taken and leaves nothing in hand that
was not there before.
-/
namespace CanTransport.Station
open CanTransport.Action

variable {inner : Scene → Scene → Prop} {g : Hand} {c c' c₁ c₂ : Scene}

theorem call_proceeds {call : Call} (hi : Sound inner) (hg : Fits g c) (h : call.Ends inner c c') :
    Proceeds g c c' := by
  cases call with
  | request target type message kind =>
    obtain ⟨answer, c₁, h, rfl⟩ := h
    exact request_proceeds hg h
  | tickIfDue =>
    obtain ⟨_, h⟩ := h
    exact tickIfDue_proceeds hi hg h
  | pacedTick =>
    obtain ⟨_, h⟩ := h
    exact pacedTick_proceeds hi hg h
  | settle =>
    obtain ⟨_, h⟩ := h
    exact settle_proceeds hi hg h
  | setSource source =>
    obtain ⟨_, h⟩ := h
    exact changeSettings_proceeds hg h
  | addGroup group =>
    obtain ⟨_, h⟩ := h
    exact addGroup_proceeds hg h
  | removeGroup group =>
    obtain ⟨_, h⟩ := h
    exact removeGroup_proceeds hg h
  | setBlockSize blockSize =>
    obtain ⟨_, h⟩ := h
    exact setBlockSize_proceeds hg h
  | setSeparation separation =>
    obtain ⟨_, h⟩ := h
    exact setSeparation_proceeds hg h

theorem calls_proceeds {calls : List Call} (hi : Sound inner) (hg : Fits g c)
    (h : Calls inner calls c c') :
    Proceeds g c c' := by
  induction calls generalizing c with
  | nil =>
    cases h
    exact .refl g c'
  | cons call rest ih =>
    obtain ⟨c₁, h₁, h₂⟩ := h
    have p := call_proceeds hi hg h₁
    exact p.trans (ih (hg.proceed p) h₂)

/-- However deep calls are nested, they are paths of transitions. -/
theorem episode_sound (depth : Nat) : Sound (Episode depth) := by
  induction depth with
  | zero =>
    rintro g c c' _ rfl
    exact .refl g c'
  | succ depth ih =>
    rintro g c c' hg ⟨calls, h⟩
    exact calls_proceeds ih hg h

theorem orderly_of_config {config : Config} {s : Station} (h : ofConfig config = .ok s) :
    Orderly ⟨{ station := s }, {}⟩ := by
  obtain ⟨-, hs⟩ := ofConfig_eq h
  have he : s.endpoints = [] := by rw [hs]
  have hh : Stage.handles ⟨{ station := s }, {}⟩ = [] := by
    simp [Stage.handles, ActiveSet.handles, hs]
  refine ⟨?_, ?_, fun b hb => absurd hb List.not_mem_nil⟩
  · intro p hp
    rw [he] at hp
    cases hp
  · intro h hh'
    rw [hh] at hh'
    cases hh'

/-- What holds at the start and is kept by every transition holds of every scene a station comes to,
with nothing left in hand. -/
theorem Reaches.invariant {config : Config} {P : Stage → Prop} (h : Reaches config c)
    (hstart : ∀ s, ofConfig config = .ok s → P ⟨{ station := s }, {}⟩)
    (hstep : ∀ x y, Transition x y → Orderly x → P x → P y) : P ⟨c, {}⟩ := by
  obtain ⟨s, depth, hs, he⟩ := h
  have hg : Fits {} { station := s } :=
    ⟨orderly_of_config hs, fun id hid => absurd hid List.not_mem_nil, .inr ⟨rfl, rfl⟩⟩
  have path := (episode_sound depth {} _ c hg he).path
  exact (path.keeps (P := fun x => Orderly x ∧ P x) ⟨hg.orderly, hstart s hs⟩
    fun x y t hx => ⟨(t.follows hx.1).orderly, hstep x y t hx.1 hx.2⟩).2

theorem Reaches.free {config : Config} (h : Reaches config c) : c.held = [] := by
  obtain ⟨s, depth, hs, he⟩ := h
  have hg : Fits {} { station := s } :=
    ⟨orderly_of_config hs, fun id hid => absurd hid List.not_mem_nil, .inr ⟨rfl, rfl⟩⟩
  exact (episode_sound depth {} _ c hg he).held

end CanTransport.Station
