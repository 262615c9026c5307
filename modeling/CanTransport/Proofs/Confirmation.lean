import CanTransport.Proofs.Balance
import CanTransport.Proofs.Execution

/-! # A request confirmed with success has been sent

Outcomes find their frames, and a sender goes on only when the frame written last is reported a
success. So a request that is confirmed with success has put exactly the frames of its message on
the bus, and each of them was reported a success.
-/
namespace CanTransport

variable {x y : Stage}

theorem Transition.grows (t : Transition x y) :
    (∃ new, y.scene.events = x.scene.events ++ new) ∧
    (x.scene.lapsed = true → y.scene.lapsed = true) := by
  cases t
  case poll | accept | announce | tell | request =>
    refine ⟨⟨_, rfl⟩, fun h => ?_⟩
    dsimp only at h
    simp [Scene.access, Scene.note, h]
  all_goals
    refine ⟨⟨[], (List.append_nil _).symm⟩, fun h => ?_⟩
    dsimp only at h
    simp [Scene.access, h]

theorem balanced_of_config {config : Config} {s : Station} (h : Station.ofConfig config = .ok s) :
    Balanced ⟨{ station := s }, {}⟩ := by
  obtain ⟨-, hs⟩ := Station.ofConfig_eq h
  constructor
  case kept =>
    change Keeps [] s.outbox
    rw [hs]
    exact .nil
  case paired => exact Nat.le_refl _
  case written_lt =>
    intro id hid
    exact absurd rfl hid
  case admitted_lt =>
    intro _ _ _ _ hmem
    exact absurd hmem List.not_mem_nil
  case nodup => exact .nil
  case tasks =>
    intro t ht
    exact absurd ht List.not_mem_nil
  case described =>
    intro id r hr
    change s.endpoint? id = some r at hr
    rw [hs] at hr
    cases hr
  case accounted =>
    intro id r hr
    change s.endpoint? id = some r at hr
    rw [hs] at hr
    cases hr
  case settled =>
    rintro id ⟨n, k, hmem⟩
    exact absurd hmem List.not_mem_nil

/-- If outcomes are reported only of frames accepted, in their order and one for each, and no entry
is given up before its outcome is known, then of a request that is confirmed with success exactly
the frames of its message have been accepted, in their order, and each of them was reported a
success. -/
theorem sent_of_confirmed {config : Config} {c : Scene} (h : Station.Reaches config c)
    (hl : c.lapsed = false) (hf : Attributable c.events) {id : EndpointId} {address n : Address}
    {message : List UInt8} {kind kind' : MessageType}
    (hadm : .admitted id address message kind ∈ c.events)
    (hconf : .told id (.confirm n (.ok ()) kind') ∈ c.events) :
    framesOf id c.events = Pdu.segmentation address message ∧
      ∀ (k : Nat) (f : Frame), (writesIn c.events)[k]? = some (id, f) →
        (outcomesIn c.events)[k]? = some .success := by
  have hb : Attributable c.events → c.lapsed = false → Balanced ⟨c, {}⟩ := by
    refine h.invariant (P := fun x => Attributable x.scene.events → x.scene.lapsed = false →
      Balanced x) (fun s hs _ _ => balanced_of_config hs) fun x y t ho hx hfy hly => ?_
    obtain ⟨⟨new, he⟩, hlapsed⟩ := t.grows
    have hlx : x.scene.lapsed = false := by
      cases hl : x.scene.lapsed with
      | false => rfl
      | true => rw [hlapsed hl] at hly; cases hly
    exact (hx (he ▸ hfy).of_append hlx).step t ho hfy hly
  obtain ⟨hset, -⟩ := (hb hf hl).settled id ⟨n, kind', hconf⟩
  refine ⟨hset.frames address message kind hadm, fun k f hk => ?_⟩
  have ht : (ticketsIn c.events)[k]? = some (id, (outcomesIn c.events)[k]?) := by
    rw [ticketsIn, tickets_getElem?, hk]
    rfl
  refine hset.outcomes _
    (List.mem_map.mpr ⟨_, List.mem_filter.mpr ⟨List.mem_of_getElem? ht, ?_⟩, rfl⟩)
  simp

def oneRequest : Scene :=
  [Station.Call.request 0x10 .physical [0x3E, 0x00] .diagnostics, .pacedTick, .pacedTick].foldl
    (fun c call => call.perform c)
    { station := { settings := { source := 0xF1 }, budget := .ofBytes 1024 } }

theorem reaches_oneRequest : Station.Reaches { source := 0xF1, memoryBudget := 1024 } oneRequest :=
  Station.reaches_perform rfl _

theorem oneRequest_events : oneRequest.events =
    [.admitted 0 (.physical 0x10 0xF1) [0x3E, 0x00] .diagnostics,
      .accepted 0
        { id := .physical 0x10 0xF1, data := padded [2, 0x3E, 0x00], dlc := 3, extended := true, remote := false },
      .reported .success, .told 0 (.confirm (.physical 0x10 0xF1) (.ok ()) .diagnostics)] := rfl

theorem attributable_oneRequest : Attributable oneRequest.events := by
  rw [oneRequest_events]
  intro before ack after h
  rcases before with _ | ⟨e₁, _ | ⟨e₂, _ | ⟨e₃, _ | ⟨e₄, before⟩⟩⟩⟩ <;> simp at h
  obtain ⟨rfl, rfl, -⟩ := h
  exact Nat.zero_lt_one

theorem sent_of_confirmed_oneRequest :
    framesOf 0 oneRequest.events = Pdu.segmentation (.physical 0x10 0xF1) [0x3E, 0x00] ∧
      (outcomesIn oneRequest.events)[0]? = some .success := by
  have hadm : .admitted 0 (.physical 0x10 0xF1) [0x3E, 0x00] .diagnostics ∈ oneRequest.events := by
    simp [oneRequest_events]
  have hconf : .told 0 (.confirm (.physical 0x10 0xF1) (.ok ()) .diagnostics) ∈
      oneRequest.events := by
    simp [oneRequest_events]
  have hsent := sent_of_confirmed reaches_oneRequest rfl attributable_oneRequest hadm hconf
  exact ⟨hsent.1, hsent.2 0 _ rfl⟩

end CanTransport
